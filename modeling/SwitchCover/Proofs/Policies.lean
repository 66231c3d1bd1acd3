import Mathlib.Data.List.Forall2
import SwitchCover.Proofs.RuleCorrect

namespace SwitchCover

/-- The second finding is the first, with the same constants missing and maybe others between
them. -/
structure UncoveredSwitch.Grows (u v : UncoveredSwitch) : Prop where
  span : v.span = u.span
  enum : v.enum = u.enum
  severity : v.severity = u.severity
  missing : u.missing.Sublist v.missing

def CheckedFile.switches (f : CheckedFile) : List (Body × StmtId × Switch) :=
  f.funcs.flatMap fun g => g.body.switches.map fun x => (g.body, x)

namespace Program

def finding? (p : Program) (settings : Settings) (f : CheckedFile) :
    Body × StmtId × Switch → Option UncoveredSwitch
  | (b, id, s) =>
    (Rule.checkSwitch p (p.registry settings f.package) settings f.file b id s).value

def findings (p : Program) (settings : Settings) (f : CheckedFile) : List UncoveredSwitch :=
  (Rule.checkFile p (p.registry settings f.package) settings f).value

theorem findings_eq (p : Program) (settings : Settings) (f : CheckedFile) :
    p.findings settings f = f.switches.filterMap (p.finding? settings f) := by
  simp only [findings, Rule.checkFile_value, CheckedFile.switches, List.filterMap_flatMap,
    List.filterMap_map]
  rfl

/-- Under the second settings every switch reported under the first is still reported, and what
the first reports stands in the same order among what the second reports. -/
structure Sharpens (p : Program) (f : CheckedFile) (settings settings' : Settings) : Prop where
  switch : ∀ x ∈ f.switches, ∀ u, p.finding? settings f x = some u →
    ∃ v, p.finding? settings' f x = some v ∧ u.Grows v
  findings : List.SublistForall₂ UncoveredSwitch.Grows (p.findings settings f)
    (p.findings settings' f)

end Program

theorem sublistForall₂_filterMap {R : β → γ → Prop} {f : α → Option β} {g : α → Option γ}
    {as : List α} (h : ∀ a ∈ as, ∀ b, f a = some b → ∃ c, g a = some c ∧ R b c) :
    List.SublistForall₂ R (as.filterMap f) (as.filterMap g) := by
  induction as with
  | nil => exact .nil
  | cons a as ih =>
    have hr := ih fun a' ha' => h a' (List.mem_cons_of_mem _ ha')
    cases hf : f a with
    | none =>
      rw [List.filterMap_cons_none hf]
      cases hg : g a with
      | none =>
        rw [List.filterMap_cons_none hg]
        exact hr
      | some c =>
        rw [List.filterMap_cons_some hg]
        exact .cons_right hr
    | some b =>
      obtain ⟨c, hg, hbc⟩ := h a List.mem_cons_self b hf
      rw [List.filterMap_cons_some hf, List.filterMap_cons_some hg]
      exact .cons hbc hr

namespace Coverage

/-- A label refers to the same under both settings or, under the second, to nothing. -/
def Narrows (settings settings' : Settings) : Prop :=
  ∀ table b t label,
    (resolveLabel settings' table b t label).value = (resolveLabel settings table b t label).value ∨
      (resolveLabel settings' table b t label).value = .nothing

theorem narrows_strict (settings : Settings) :
    Narrows { settings with qualifiedLabels := .loose }
      { settings with qualifiedLabels := .strict } := by
  intro table b t label
  simp only [resolveLabel]
  split
  · exact .inl rfl
  next base member _ =>
    by_cases hq : b.packageRef? base = some t.package
    · exact .inl (by simp [hq])
    · exact .inr (by simp [hq])
  · exact .inl rfl

theorem narrows_ignore (settings : Settings) :
    Narrows { settings with conversionLabels := .evaluate }
      { settings with conversionLabels := .ignore } := by
  intro table b t label
  simp only [resolveLabel]
  split
  · exact .inl rfl
  · exact .inl rfl
  · exact .inr (by simp [evaluateLabel])

theorem Narrows.marked_subset (h : Narrows settings settings') (table : TypeTable) (b : Body)
    (s : Switch) (t : NamedType) (constants : List EnumConstant) :
    marked settings' table b s t constants ⊆ marked settings table b s t constants := by
  intro name hn
  obtain ⟨label, hl, hn⟩ := List.mem_flatMap.1 hn
  rcases h table b t label with he | he
  · exact List.mem_flatMap.2 ⟨label, hl, he ▸ hn⟩
  · rw [he] at hn
    cases hn

theorem Narrows.missingOf_sublist (h : Narrows settings settings') (table : TypeTable) (b : Body)
    (s : Switch) (t : NamedType) (hn : (constants.map EnumConstant.name).Nodup) :
    (missingOf settings table b s t constants).Sublist
      (missingOf settings' table b s t constants) := by
  rw [missingOf, missingOf, check_missing settings table b s t hn,
    check_missing settings' table b s t hn]
  split
  · exact .refl _
  · apply List.Sublist.map
    apply List.monotone_filter_right
    intro k hk
    have hs := h.marked_subset table b s t constants
    simp only [decide_eq_true_eq] at hk ⊢
    exact fun hm => hk (hs hm)

end Coverage

namespace IntegerKinds

def Within (kinds kinds' : IntegerKinds) : Prop :=
  ∀ p, kinds.accepts p → kinds'.accepts p

theorem int_within_signed : Within int signed := by
  intro p hp
  have hp : p = .int .int := by simpa [accepts] using hp
  rw [hp]
  rfl

theorem signed_within_any : Within signed any := by
  intro p hp
  cases p with
  | int kind => rfl
  | _ => cases hp

end IntegerKinds

namespace Package

theorem declaresEnum_of_within {pkg : Package} (hk : kinds.Within kinds')
    (h : pkg.declaresEnum table kinds t) : pkg.declaresEnum table kinds' t := by
  rw [declaresEnum] at h ⊢
  split at h
  next decl hd =>
    simp only [Bool.and_eq_true, Option.any_eq_true] at h ⊢
    obtain ⟨hown, prim, hp, ha⟩ := h
    exact ⟨hown, prim, hp, hk prim ha⟩
  next => cases h

end Package

namespace Program

variable {p : Program}

theorem enum?_of_within (hk : IntegerKinds.Within kinds kinds') (h : p.enum? kinds t = some ks) :
    p.enum? kinds' t = some ks := by
  obtain ⟨pkg, hp, he⟩ := Option.bind_eq_some_iff.1 h
  split at he
  next hc =>
    rw [enum?, hp, Option.bind_some, if_pos ⟨Package.declaresEnum_of_within hk hc.1, hc.2⟩]
    exact he
  next => cases he

/-- The registry lists for a type what the type's package declares, so no name stands twice. -/
theorem Valid.nodup_constantsOf (h : p.Valid)
    (hc : (p.registry settings path).constantsOf t = some ks) :
    (ks.map EnumConstant.name).Nodup := by
  rw [registry, Registry.constantsOf_build h.pathsAgree] at hc
  split at hc
  next =>
    obtain ⟨_, pkg, _, _, _, rfl⟩ := h.enum?_eq_some.1 hc
    exact pkg.scope.nodup_constsOf p.types t
  next => cases hc

theorem Valid.constantsOf_of_within (h : p.Valid)
    (hk : settings.integerKinds.Within settings'.integerKinds)
    (hc : (p.registry settings path).constantsOf t = some ks) :
    (p.registry settings' path).constantsOf t = some ks := by
  rw [registry, Registry.constantsOf_build h.pathsAgree] at hc ⊢
  split at hc
  next hm =>
    rw [if_pos hm]
    exact enum?_of_within hk hc
  next => cases hc

theorem Valid.sharpens (h : p.Valid) (f : CheckedFile)
    (hk : settings'.integerKinds = settings.integerKinds)
    (hs : settings'.severity = settings.severity) (hn : Coverage.Narrows settings settings') :
    p.Sharpens f settings settings' := by
  have hswitch : ∀ x ∈ f.switches, ∀ u, p.finding? settings f x = some u →
      ∃ v, p.finding? settings' f x = some v ∧ u.Grows v := by
    rintro ⟨b, id, s⟩ _ u hu
    obtain ⟨tag, htag, ty, hty, t, ht, ks, hks, hne, rfl⟩ := Rule.checkSwitch_eq_some.1 hu
    have hsub := hn.missingOf_sublist p.types b s t (h.nodup_constantsOf hks)
    have hne' : Coverage.missingOf settings' p.types b s t ks ≠ [] := by
      intro he
      rw [he] at hsub
      exact hne (List.sublist_nil.1 hsub)
    have hks' : (p.registry settings' f.package).constantsOf t = some ks := by
      rw [registry, hk]
      exact hks
    refine ⟨_, Rule.checkSwitch_eq_some.2 ⟨tag, htag, ty, hty, t, ht, ks, hks', hne', rfl⟩, ?_⟩
    exact ⟨rfl, rfl, hs, hsub⟩
  refine ⟨hswitch, ?_⟩
  rw [findings_eq, findings_eq]
  exact sublistForall₂_filterMap hswitch

/-- Wider kinds add enum-like types and leave the others as they are. -/
theorem Valid.findings_sublist (h : p.Valid) (settings : Settings) (f : CheckedFile)
    (hk : IntegerKinds.Within kinds kinds') :
    (p.findings { settings with integerKinds := kinds } f).Sublist
      (p.findings { settings with integerKinds := kinds' } f) := by
  have hswitch : ∀ x ∈ f.switches, ∀ u,
      p.finding? { settings with integerKinds := kinds } f x = some u →
        ∃ v, p.finding? { settings with integerKinds := kinds' } f x = some v ∧ u = v := by
    rintro ⟨b, id, s⟩ _ u hu
    obtain ⟨tag, htag, ty, hty, t, ht, ks, hks, hne, rfl⟩ := Rule.checkSwitch_eq_some.1 hu
    have hks' : (p.registry { settings with integerKinds := kinds' } f.package).constantsOf t =
        some ks := h.constantsOf_of_within hk hks
    exact ⟨_, Rule.checkSwitch_eq_some.2 ⟨tag, htag, ty, hty, t, ht, ks, hks', hne, rfl⟩, rfl⟩
  rw [findings_eq, findings_eq]
  obtain ⟨us, he, hs⟩ := List.sublistForall₂_iff.1 (sublistForall₂_filterMap hswitch)
  rw [List.forall₂_eq_eq_eq] at he
  exact he ▸ hs

theorem findings_severity (p : Program) (settings : Settings) (f : CheckedFile)
    (severity : Severity) :
    p.findings { settings with severity } f =
      (p.findings settings f).map fun u => { u with severity } := by
  have hm (span : Span) (t : NamedType) (missing : List String) :
      UncoveredSwitch.ofMissing severity span t missing =
        (UncoveredSwitch.ofMissing settings.severity span t missing).map
          fun u => { u with severity } := by
    simp only [UncoveredSwitch.ofMissing]
    split
    · rfl
    · rfl
  rw [findings_eq, findings_eq, List.map_filterMap]
  congr 1
  funext x
  obtain ⟨b, id, s⟩ := x
  simp only [finding?, Rule.checkSwitch_value, Option.map_bind, Function.comp_def, hm]
  rfl

/-- How the settings act on the findings on a file of a constructed program. Stricter labels keep
every switch that was reported and may add to its missing constants, wider integer kinds add
findings between the old ones, and the severity changes no more than itself. -/
theorem findings_monotone (cs : List Command) (settings : Settings) (f : CheckedFile) :
    let p := (Workspace.empty.run cs).program
    p.Sharpens f { settings with qualifiedLabels := .loose }
      { settings with qualifiedLabels := .strict } ∧
    p.Sharpens f { settings with conversionLabels := .evaluate }
      { settings with conversionLabels := .ignore } ∧
    (p.findings { settings with integerKinds := .int } f).Sublist
      (p.findings { settings with integerKinds := .signed } f) ∧
    (p.findings { settings with integerKinds := .signed } f).Sublist
      (p.findings { settings with integerKinds := .any } f) ∧
    ∀ severity, p.findings { settings with severity } f =
      (p.findings settings f).map fun u => { u with severity } := by
  intro p
  have h : p.Valid := (Workspace.run_valid cs).program
  refine ⟨?_, ?_, ?_, ?_, ?_⟩
  · exact h.sharpens f rfl rfl (Coverage.narrows_strict settings)
  · exact h.sharpens f rfl rfl (Coverage.narrows_ignore settings)
  · exact h.findings_sublist settings f IntegerKinds.int_within_signed
  · exact h.findings_sublist settings f IntegerKinds.signed_within_any
  · exact p.findings_severity settings f

end Program

end SwitchCover

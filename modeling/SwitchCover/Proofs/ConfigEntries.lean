import Mathlib
import SwitchCover.Config
import SwitchCover.Proofs.ClosureExact
import SwitchCover.Proofs.DistinctKeys

namespace SwitchCover

def Settings.entries (s : Settings) : List (String × String) :=
  [("severity", s.severity.name), ("integer-kinds", s.integerKinds.name),
    ("qualified-labels", s.qualifiedLabels.name), ("conversion-labels", s.conversionLabels.name)]

namespace Setting

theorem choice?_eq_some (s : Setting) {a : s.Choice} :
    s.choice? text = some a ↔ s.name a = text := by
  rw [choice?]
  constructor
  · intro h
    simpa using List.find?_some h
  · rintro rfl
    cases h : s.choices.find? (s.name · = s.name a) with
    | none => simpa using List.find?_eq_none.1 h a (s.mem_choices a)
    | some b => rw [s.name_injective b a (by simpa using List.find?_some h)]

theorem ofKey?_of_mem (hs : s ∈ all) : ofKey? s.key = some s := by
  simp only [all, List.mem_cons, List.not_mem_nil, or_false] at hs
  rcases hs with rfl | rfl | rfl | rfl <;> rfl

theorem ofKey?_eq_some {k : String} (h : ofKey? k = some s) : s ∈ all ∧ s.key = k :=
  ⟨List.mem_of_find?_eq_some h, by simpa using List.find?_some h⟩

/-- Each setting has a place of its own. -/
theorem get_put_of_ne (hs : s ∈ all) (ht : t ∈ all) (hne : s.key ≠ t.key) (a : t.Choice)
    (x : Settings) : s.get (t.put a x) = s.get x := by
  simp only [all, List.mem_cons, List.not_mem_nil, or_false] at hs ht
  rcases hs with rfl | rfl | rfl | rfl <;> rcases ht with rfl | rfl | rfl | rfl <;>
    first | rfl | exact absurd rfl hne

theorem mem_entries {x : Settings} {k : String} :
    (k, text) ∈ x.entries ↔ ∃ s ∈ all, s.key = k ∧ s.name (s.get x) = text := by
  have he : x.entries = all.map fun s => (s.key, s.name (s.get x)) := rfl
  simp only [he, List.mem_map, Prod.mk.injEq]

end Setting

theorem Toml.Value.eq_string_of_asString {v : Value} (h : v.asString = some text) :
    v = .string text := by
  cases v with
  | string s =>
    cases h
    rfl
  | _ => cases h

namespace Config

def choices : List (String × List String) :=
  [("severity", ["error", "warning", "note"]), ("integer-kinds", ["int", "signed", "any"]),
    ("qualified-labels", ["loose", "strict"]), ("conversion-labels", ["ignore", "evaluate"])]

/-- What is reported on an entry: an unknown key, a value that is no string, or a string that names
no choice of the setting. -/
def complaint? (e : String × Toml.Value) : Option ConfigDiagnostic :=
  match choices.lookup e.1 with
  | none => some (.unknownField ("enum-switch." ++ e.1))
  | some names =>
    match e.2.asString with
    | none => some (.unexpectedData e.1 e.2.kind "string")
    | some text => if text ∈ names then none else some (.invalidValue e.1 text)

/-- The value of a setting is the choice that its key names among the entries, and otherwise the
default. -/
def Chosen (es : Toml.Entries) (key : String) (name : α → String) (default a : α) : Prop :=
  (∀ b, (key, .string (name b)) ∈ es → a = b) ∧ ((∀ b, (key, .string (name b)) ∉ es) → a = default)

/-- An entry names the value that its setting has. -/
def TookEffect (c : Config) (e : String × Toml.Value) : Prop :=
  ∃ key text, e = (key, .string text) ∧ (key, text) ∈ c.settings.entries

structure Reads (es : Toml.Entries) (c : Config) : Prop where
  severity : Chosen es "severity" Severity.name .error c.settings.severity
  integerKinds : Chosen es "integer-kinds" IntegerKinds.name .signed c.settings.integerKinds
  qualifiedLabels :
    Chosen es "qualified-labels" QualifiedLabels.name .loose c.settings.qualifiedLabels
  conversionLabels :
    Chosen es "conversion-labels" ConversionLabels.name .ignore c.settings.conversionLabels
  diagnostics : ∃ visited : Toml.Entries, visited.Perm es ∧
    visited.Pairwise (fun e f => e.1.toUTF8.data.toList < f.1.toUTF8.data.toList) ∧
    c.diagnostics = visited.filterMap complaint?
  effect : c.diagnostics = [] ↔ ∀ e ∈ es, c.TookEffect e

theorem choices_lookup (key : String) :
    choices.lookup key = (Setting.ofKey? key).map fun s => s.choices.map s.name := by
  have hc : choices = Setting.all.map fun s => (s.key, s.choices.map s.name) := rfl
  rw [hc, Setting.ofKey?]
  induction Setting.all with
  | nil => rfl
  | cons s ss ih =>
    rw [List.map_cons, List.lookup_cons, List.find?_cons, ih]
    by_cases h : key = s.key
    · simp [h]
    · simp [beq_false_of_ne h, Ne.symm h]

theorem complaint?_eq_none_iff :
    complaint? e = none ↔ ∃ s ∈ Setting.all, ∃ a, e = (s.key, .string (s.name a)) := by
  obtain ⟨key, v⟩ := e
  rw [complaint?, choices_lookup]
  constructor
  · intro h
    cases hs : Setting.ofKey? key with
    | none => simp [hs] at h
    | some s =>
      obtain ⟨hm, rfl⟩ := Setting.ofKey?_eq_some hs
      cases hv : v.asString with
      | none => simp [hs, hv] at h
      | some text =>
        have ht : text ∈ s.choices.map s.name := by simpa [hs, hv] using h
        obtain ⟨a, -, rfl⟩ := List.mem_map.1 ht
        exact ⟨s, hm, a, by rw [Toml.Value.eq_string_of_asString hv]⟩
  · rintro ⟨s, hs, a, he⟩
    cases he
    have ha : s.name a ∈ s.choices.map s.name := List.mem_map_of_mem (s.mem_choices a)
    simp only [Setting.ofKey?_of_mem hs, Option.map_some, Toml.Value.asString, if_pos ha]

/-- What applying an entry does: an entry makes its choice, or it is reported and leaves the
settings alone. -/
theorem applyEntry_cases (c : Config) (e : String × Toml.Value) :
    (∃ s ∈ Setting.all, ∃ a, e = (s.key, .string (s.name a)) ∧ complaint? e = none ∧
      c.applyEntry e = { c with settings := s.put a c.settings }) ∨
    ∃ d, complaint? e = some d ∧
      c.applyEntry e = { c with diagnostics := c.diagnostics ++ [d] } := by
  obtain ⟨key, v⟩ := e
  cases hs : Setting.ofKey? key with
  | none =>
    refine .inr ⟨.unknownField ("enum-switch." ++ key), ?_, ?_⟩
    · simp only [complaint?, choices_lookup, hs, Option.map_none]
    · simp only [applyEntry, hs]
      rfl
  | some s =>
    obtain ⟨hm, rfl⟩ := Setting.ofKey?_eq_some hs
    cases hv : v.asString with
    | none =>
      refine .inr ⟨.unexpectedData s.key v.kind "string", ?_, ?_⟩
      · simp only [complaint?, choices_lookup, hs, Option.map_some, hv]
      · simp only [applyEntry, hs, applyChoice, hv]
    | some text =>
      cases hc : s.choice? text with
      | none =>
        have ht : text ∉ s.choices.map s.name := by
          intro ht
          obtain ⟨a, -, ha⟩ := List.mem_map.1 ht
          cases hc.symm.trans (s.choice?_eq_some.2 ha)
        refine .inr ⟨.invalidValue s.key text, ?_, ?_⟩
        · simp only [complaint?, choices_lookup, hs, Option.map_some, hv, if_neg ht]
        · simp only [applyEntry, hs, applyChoice, hv, hc]
      | some a =>
        obtain rfl := s.choice?_eq_some.1 hc
        have he : (s.key, v) = (s.key, .string (s.name a)) := by
          rw [Toml.Value.eq_string_of_asString hv]
        refine .inl ⟨s, hm, a, he, complaint?_eq_none_iff.2 ⟨s, hm, a, he⟩, ?_⟩
        simp only [applyEntry, hs, applyChoice, hv, hc]

theorem diagnostics_foldl (es : Toml.Entries) (c : Config) :
    (es.foldl applyEntry c).diagnostics = c.diagnostics ++ es.filterMap complaint? := by
  induction es generalizing c with
  | nil => simp
  | cons e es ih =>
    rw [List.foldl_cons, ih, List.filterMap_cons]
    obtain ⟨s, -, a, -, he, hc⟩ | ⟨d, he, hc⟩ := c.applyEntry_cases e
    · rw [hc, he]
    · rw [hc, he, List.append_assoc, List.singleton_append]

namespace Chosen

variable {name : α → String}

theorem cons (h : Chosen es key name d a) (hk : k ≠ key) :
    Chosen ((k, v) :: es) key name d a := by
  refine ⟨fun b hb => ?_, fun hb => h.2 fun b hm => hb b (List.mem_cons_of_mem _ hm)⟩
  obtain he | hm := List.mem_cons.1 hb
  · cases he
    exact absurd rfl hk
  · exact h.1 b hm

theorem perm (h : Chosen es key name d a) (hp : es.Perm es') : Chosen es' key name d a :=
  ⟨fun b hb => h.1 b (hp.mem_iff.2 hb), fun hb => h.2 fun b hm => hb b (hp.mem_iff.1 hm)⟩

end Chosen

section

variable {s : Setting} (hs : s ∈ Setting.all)

include hs

theorem get_applyEntry_of_ne (c : Config) (he : e.1 ≠ s.key) :
    s.get (c.applyEntry e).settings = s.get c.settings := by
  obtain ⟨t, ht, a, rfl, -, hc⟩ | ⟨d, -, hc⟩ := c.applyEntry_cases e
  · rw [hc]
    exact Setting.get_put_of_ne hs ht (Ne.symm he) a c.settings
  · rw [hc]

theorem get_applyEntry_of_named (c : Config) (a : s.Choice) :
    s.get (c.applyEntry (s.key, .string (s.name a))).settings = a := by
  have hc : s.choice? (s.name a) = some a := s.choice?_eq_some.2 rfl
  simp only [applyEntry, Setting.ofKey?_of_mem hs, applyChoice, Toml.Value.asString, hc]
  exact s.get_put a c.settings

theorem get_applyEntry_of_unnamed (c : Config) (hv : ∀ a, v ≠ .string (s.name a)) :
    s.get (c.applyEntry (s.key, v)).settings = s.get c.settings := by
  obtain ⟨t, ht, a, he, -, -⟩ | ⟨d, -, hc⟩ := c.applyEntry_cases (s.key, v)
  · obtain ⟨hk, rfl⟩ := Prod.mk.inj he
    have hst : some s = some t := by
      rw [← Setting.ofKey?_of_mem hs, ← Setting.ofKey?_of_mem ht, hk]
    cases hst
    exact absurd rfl (hv a)
  · rw [hc]

theorem get_foldl_of_notMem (es : Toml.Entries) (hk : s.key ∉ es.map Prod.fst) (c : Config) :
    s.get (es.foldl applyEntry c).settings = s.get c.settings := by
  induction es generalizing c with
  | nil => rfl
  | cons e es ih =>
    rw [List.map_cons, List.mem_cons, not_or] at hk
    rw [List.foldl_cons, ih hk.2, get_applyEntry_of_ne hs c (Ne.symm hk.1)]

theorem chosen_foldl (es : Toml.Entries) (hk : (es.map Prod.fst).Nodup) (c : Config) :
    Chosen es s.key s.name (s.get c.settings) (s.get (es.foldl applyEntry c).settings) := by
  induction es generalizing c with
  | nil => exact ⟨fun b hb => absurd hb List.not_mem_nil, fun _ => rfl⟩
  | cons e es ih =>
    obtain ⟨k, v⟩ := e
    rw [List.map_cons, List.nodup_cons] at hk
    rw [List.foldl_cons]
    by_cases he : k = s.key
    · -- No entry with the same key follows, so the choice made here is the last.
      subst he
      have hrest (b : s.Choice) : (s.key, .string (s.name b)) ∉ es := fun hb =>
        hk.1 (List.mem_map.2 ⟨_, hb, rfl⟩)
      rw [get_foldl_of_notMem hs es hk.1]
      refine ⟨fun b hb => ?_, fun hb => ?_⟩
      · obtain h | h := List.mem_cons.1 hb
        · cases h
          exact get_applyEntry_of_named hs c b
        · exact absurd h (hrest b)
      · refine get_applyEntry_of_unnamed hs c fun a ha => hb a ?_
        rw [ha]
        exact List.mem_cons_self
    · have hih := ih hk.2 (c.applyEntry (k, v))
      rw [get_applyEntry_of_ne hs c he] at hih
      exact hih.cons he

end

theorem pairwise_sorted {es : Toml.Entries} (hk : (es.map Prod.fst).Nodup) :
    es.sorted.Pairwise (fun e f => e.1.toUTF8.data.toList < f.1.toUTF8.data.toList) := by
  have hle : es.sorted.Pairwise fun e f => decide (e.1 ≤ f.1) = true := by
    apply List.pairwise_mergeSort
    · intro e f g hef hfg
      exact decide_eq_true (le_trans (of_decide_eq_true hef) (of_decide_eq_true hfg))
    · intro e f
      simpa only [Bool.or_eq_true, decide_eq_true_eq] using le_total e.1 f.1
  have hne : es.sorted.Pairwise fun e f => e.1 ≠ f.1 :=
    List.pairwise_map.1 (((List.mergeSort_perm es _).map Prod.fst).nodup_iff.2 hk)
  refine hle.imp₂ (fun e f hle hne => Text.toUTF8_lt ?_) hne
  exact lt_of_le_of_ne (of_decide_eq_true hle) hne

theorem reads_foldl_sorted (hk : (es.map Prod.fst).Nodup) :
    Reads es (es.sorted.foldl applyEntry {}) := by
  have hp : es.sorted.Perm es := List.mergeSort_perm es _
  have hk' : (es.sorted.map Prod.fst).Nodup := (hp.map Prod.fst).nodup_iff.2 hk
  have hd := diagnostics_foldl es.sorted {}
  rw [List.nil_append] at hd
  have chosen {s : Setting} (hs : s ∈ Setting.all) :
      Chosen es s.key s.name (s.get {}) (s.get (es.sorted.foldl applyEntry {}).settings) :=
    (chosen_foldl hs _ hk' {}).perm hp
  refine ⟨chosen (s := .severity) (by simp [Setting.all]),
    chosen (s := .integerKinds) (by simp [Setting.all]),
    chosen (s := .qualifiedLabels) (by simp [Setting.all]),
    chosen (s := .conversionLabels) (by simp [Setting.all]),
    ⟨es.sorted, hp, pairwise_sorted hk, hd⟩, ?_⟩
  rw [hd, List.filterMap_eq_nil_iff]
  constructor
  · intro h e he
    obtain ⟨s, hs, a, rfl⟩ := complaint?_eq_none_iff.1 (h e (hp.mem_iff.2 he))
    refine ⟨s.key, s.name a, rfl, Setting.mem_entries.2 ⟨s, hs, rfl, ?_⟩⟩
    rw [(chosen hs).1 a he]
  · intro h e he
    obtain ⟨key, text, rfl, hm⟩ := h e (hp.mem_iff.1 he)
    obtain ⟨s, hs, rfl, rfl⟩ := Setting.mem_entries.1 hm
    exact complaint?_eq_none_iff.2 ⟨s, hs, _, rfl⟩

/-- Bad entries are isolated and all of them are reported. A document that can be read has a
configuration: the default without the table of the settings, the default with one report if
there is something else in its place, and otherwise what the entries of the table say. -/
theorem parse?_isolates (text : String) (doc : Toml.Value) (h : Toml.parse? text = some doc) :
    ∃ c, parse? text = some c ∧
      (doc.get? "enum-switch" = none → c = {}) ∧
      (∀ v, doc.get? "enum-switch" = some v → v.asTable = none →
        c.settings = {} ∧ c.diagnostics = [.unexpectedData "enum-switch" v.kind "table"]) ∧
      ∀ v es, doc.get? "enum-switch" = some v → v.asTable = some es → Reads es c := by
  refine ⟨ofDocument doc, by rw [parse?, h, Option.map_some], ?_, ?_, ?_⟩
  · intro hn
    simp only [ofDocument, tableKey, hn]
  · intro v hv ht
    simp only [ofDocument, tableKey, hv, ht, and_self]
  · intro v es hv ht
    simp only [ofDocument, tableKey, hv, ht]
    exact reads_foldl_sorted (((Toml.distinct_parse? h).get? hv).entries ht).keys

/-- A good entry between two bad ones. -/
def mixed : String :=
  "[enum-switch]\nseverity=3\nqualified-labels=\"strict\"\ncolour=\"blue\""

def mixedEntries : Toml.Entries :=
  [("severity", .integer 3), ("qualified-labels", .string "strict"), ("colour", .string "blue")]

theorem parse?_isolates_mixed :
    Toml.parse? mixed = some (.table .header [("enum-switch", .table .header mixedEntries)]) ∧
      ∃ c, parse? mixed = some c ∧ c.settings = { qualifiedLabels := .strict } ∧
        c.diagnostics = [.unknownField "enum-switch.colour",
          .unexpectedData "severity" "integer" "string"] := by
  have hdoc : Toml.parse? mixed =
      some (.table .header [("enum-switch", .table .header mixedEntries)]) := by cbv
  obtain ⟨c, hc, -, -, hreads⟩ := parse?_isolates mixed _ hdoc
  have h := hreads _ _ rfl rfl
  refine ⟨hdoc, c, hc, ?_, ?_⟩
  · have hseverity := h.severity.2 (by simp [mixedEntries])
    have hkinds := h.integerKinds.2 (by simp [mixedEntries])
    have hlabels := h.qualifiedLabels.1 .strict (by simp [mixedEntries, QualifiedLabels.name])
    have hconversions := h.conversionLabels.2 (by simp [mixedEntries])
    calc
      c.settings = ⟨c.settings.severity, c.settings.integerKinds, c.settings.qualifiedLabels,
          c.settings.conversionLabels⟩ := rfl
      _ = _ := by rw [hseverity, hkinds, hlabels, hconversions]
  · obtain ⟨visited, hp, hsorted, hd⟩ := h.diagnostics
    have hperm : mixedEntries.reverse.Perm mixedEntries := List.reverse_perm _
    have hpair : mixedEntries.reverse.Pairwise
        (fun e f => e.1.toUTF8.data.toList < f.1.toUTF8.data.toList) := by
      decide +kernel
    have hv : visited = mixedEntries.reverse := by
      refine (hp.trans hperm.symm).eq_of_pairwise ?_ hsorted hpair
      intro e f _ _ hlt hgt
      exact absurd hgt (List.lt_asymm hlt)
    rw [hd, hv]
    rfl

end Config

end SwitchCover

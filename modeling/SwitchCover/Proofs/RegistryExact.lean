import Mathlib.Data.Set.Card
import SwitchCover.Proofs.RuleCorrect

namespace SwitchCover

theorem OrderedMap.encard_get? [DecidableEq κ] (m : OrderedMap κ β) :
    {k | ∃ v, m.get? k = some v}.encard = m.size := by
  have hk : {k | ∃ v, m.get? k = some v} = m.keys.toFinset := by
    apply Set.ext
    intro k
    rw [Finset.mem_coe, List.mem_toFinset]
    exact ⟨fun ⟨_, hv⟩ => mem_keys_of_get? hv, exists_get?_of_mem_keys⟩
  have hn : m.keys.Nodup := m.nodup
  rw [hk, Set.encard_coe_eq_coe_finsetCard, List.toFinset_card_of_nodup hn, keys,
    List.length_map, size]

/-- A type of a package of the closure is enum-like and has the given constants: its package is
loaded and declares it as a type of its own over an accepted kind of integers, and these are the
constants that the package declares with exactly this type, in declaration order. -/
inductive Program.EnumLike (p : Program) (closure : Closure) (kinds : IntegerKinds) (t : NamedType)
    (ks : List EnumConstant) : Prop where
  | scan (visible : t.package ∈ closure.paths) (enum : p.DeclaresEnum kinds t pkg decl prim)
    (denotes : p.types.asNamed decl.ty = some t) (nonempty : ks ≠ [])
    (order : ks.Pairwise (·.index < ·.index))
    (constants : ∀ k, k ∈ ks ↔ pkg.scope.DeclaresConst p.types t k)

theorem Program.enumLike_iff {p : Program} {closure : Closure} :
    p.EnumLike closure kinds t ks ↔
      t.package ∈ closure.paths ∧ p.enum? kinds t = some ks := by
  rw [enum?_eq_some]
  constructor
  · rintro ⟨hv, hd, ht, hne, ho, hm⟩
    exact ⟨hv, hne, _, _, _, hd, ht, Scope.eq_constsOf_iff.2 ⟨ho, hm⟩⟩
  · rintro ⟨hv, hne, pkg, decl, prim, hd, ht, hks⟩
    obtain ⟨ho, hm⟩ := Scope.eq_constsOf_iff.1 hks
    exact ⟨hv, hd, ht, hne, ho, hm⟩

namespace Registry

/-- Looking a type up in the registry of a closure finds what a scan of its package finds, and
nothing else. The registry has one entry for each enum-like type, the constants of a type are
declared in its own package, and what other packages declare does not matter. -/
theorem build_eq_scan (program : Program) (hp : program.PathsAgree) (closure : Closure)
    (kinds : IntegerKinds) :
    let r := (build program closure kinds).value
    (∀ t ks, r.constantsOf t = some ks ↔ program.EnumLike closure kinds t ks) ∧
    (∀ t, r.constantsOf t = none ↔ ∀ ks, ¬program.EnumLike closure kinds t ks) ∧
    {t | ∃ ks, program.EnumLike closure kinds t ks}.encard = r.size ∧
    (∀ t ks, r.constantsOf t = some ks → ∀ k ∈ ks, ∃ pkg,
      program.package? t.package = some pkg ∧ pkg.scope.DeclaresConst program.types t k) ∧
    ∀ (other : Program) (t : NamedType), other.PathsAgree → other.types = program.types →
      other.package? t.package = program.package? t.package →
      (build other closure kinds).value.constantsOf t = r.constantsOf t := by
  intro r
  have hsome (t : NamedType) (ks : List EnumConstant) :
      r.constantsOf t = some ks ↔ program.EnumLike closure kinds t ks := by
    rw [constantsOf_build hp, Program.enumLike_iff]
    by_cases ht : t.package ∈ closure.paths <;> simp [ht]
  refine ⟨hsome, fun t => ?_, ?_, fun t ks hks k hk => ?_, fun other t ho htypes hpkg => ?_⟩
  · simp only [Option.eq_none_iff_forall_ne_some, ne_eq, hsome]
  · simp only [← hsome]
    exact r.enums.encard_get?
  · obtain ⟨_, hd, _, _, _, hm⟩ := (hsome t ks).1 hks
    exact ⟨_, hd.package, (hm k).1 hk⟩
  · rw [constantsOf_build ho, constantsOf_build hp, Program.enum?, Program.enum?, htypes, hpkg]

/-- Two packages. The second declares a constant of a type of the first, an alias of that type and
a type of its own that is no kind of integer. -/
def paletteScript : List Command :=
  [.decl (.package ⟨"color"⟩ "color"), .decl (.defineType (.prim (.int .int)) ⟨"color"⟩ "Color"),
    .decl (.declareConst (.slot 0) (some (.int 7)) ⟨"color"⟩ "Red"),
    .decl (.declareVar (.slot 0) ⟨"color"⟩ "last"),
    .decl (.declareConst (.slot 0) none ⟨"color"⟩ "Blue"),
    .decl (.package ⟨"paint"⟩ "paint"), .decl (.declareConst (.slot 0) none ⟨"paint"⟩ "Mauve"),
    .decl (.aliasType (.slot 0) ⟨"paint"⟩ "Color"),
    .decl (.defineType (.prim .string) ⟨"paint"⟩ "Brand"),
    .decl (.declareConst (.slot 2) none ⟨"paint"⟩ "Acme")]

/-- The closure also names a package that is not loaded. -/
theorem build_eq_scan_palette :
    let p := (Workspace.empty.run paletteScript).program
    let closure := Closure.ofList [⟨"paint"⟩, ⟨"ghost"⟩, ⟨"color"⟩]
    p.PathsAgree ∧
    p.EnumLike closure .any ⟨⟨"color"⟩, "Color"⟩
      [⟨"Red", 1, some (.int 7)⟩, ⟨"Blue", 3, none⟩] ∧
    (∀ ks, ¬p.EnumLike closure .any ⟨⟨"paint"⟩, "Color"⟩ ks) ∧
    {t | ∃ ks, p.EnumLike closure .any t ks}.encard = (1 : Nat) := by
  intro p closure
  have hp : p.PathsAgree := (Workspace.run_valid paletteScript).program.pathsAgree
  obtain ⟨hsome, hnone, hsize, _⟩ := build_eq_scan p hp closure .any
  have hone : (build p closure .any).value.size = 1 := by decide +kernel
  refine ⟨hp, (hsome _ _).1 (by decide +kernel), (hnone _).1 (by decide +kernel), ?_⟩
  rw [hsize, hone]

end Registry

end SwitchCover

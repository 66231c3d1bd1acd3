import SwitchCover.Proofs.ScriptSteps

namespace SwitchCover

namespace Program

/-- The package of a path has the same declarations and imports in both programs. -/
def AgreesAt (path : PackagePath) (p q : Program) : Prop :=
  ∀ a, p.package? path = some a →
    ∃ b, q.package? path = some b ∧ b.scope = a.scope ∧ ∀ r, r ∈ b.imports ↔ r ∈ a.imports

theorem AgreesAt.refl (path : PackagePath) (p : Program) : AgreesAt path p p :=
  fun a ha => ⟨a, ha, rfl, fun _ => .rfl⟩

theorem AgreesAt.trans {p q r : Program} (h : AgreesAt path p q) (h' : AgreesAt path q r) :
    AgreesAt path p r := by
  intro a ha
  obtain ⟨b, hb, hs, hi⟩ := h a ha
  obtain ⟨c, hc, hs', hi'⟩ := h' b hb
  exact ⟨c, hc, hs'.trans hs, fun r => (hi' r).trans (hi r)⟩

end Program

def Change.target? : Change → Option PackagePath
  | link importer _ => some importer
  | declare path _ _ => some path
  | _ => none

theorem Program.Changes.agreesAt {p p' : Program} (hc : p.Changes c p')
    (hq : c.target? ≠ some q) : AgreesAt q p p' := by
  intro a ha
  cases hc with
  | package name hn =>
    refine ⟨a, ?_, rfl, fun _ => .rfl⟩
    rw [package?, OrderedMap.get?_append, if_neg]
    · exact ha
    · rintro rfl
      exact hn (OrderedMap.mem_keys_of_get? ha)
  | link hfrom hto =>
    refine ⟨a, ?_, rfl, fun _ => .rfl⟩
    rw [package?, OrderedMap.get?_modify, if_neg]
    · exact ha
    · rintro rfl
      exact hq rfl
  | types _ => exact ⟨a, ha, rfl, fun _ => .rfl⟩
  | declare hp hs hi =>
    refine ⟨a, ?_, rfl, fun _ => .rfl⟩
    rw [package?_setScope_of_ne]
    · exact ha
    · rintro rfl
      exact hq rfl
  | text source => exact ⟨a, ha, rfl, fun _ => .rfl⟩
  | finish hf =>
    simp only [package?, OrderedMap.get?_modify]
    split
    next => exact ⟨_, congrArg (Option.map _) ha, rfl, fun _ => .rfl⟩
    next => exact ⟨a, ha, rfl, fun _ => .rfl⟩

def Workspace.filePackage? (w : Workspace) : Option PackagePath :=
  match w.level with
  | .file f => some f.package
  | _ => none

namespace Command

def target? (w : Workspace) : Command → Option PackagePath
  | .decl (.addImport importer _) => some importer
  | .decl (.defineType _ package _) => some package
  | .decl (.aliasType _ package _) => some package
  | .decl (.declareFunc _ _ package _) => some package
  | .decl (.declareConst _ _ package _) => some package
  | .decl (.declareIota _ package _) => some package
  | .decl (.declareVar _ package _) => some package
  | .file (.importPackage _) => w.filePackage?
  | .file (.importAs _ _) => w.filePackage?
  | _ => none

/-- A command is aimed at the package that it changes. -/
theorem May.target? {change : Change} (h : May w r c change) (ht : change.target? = some q) :
    c.target? w = some q := by
  cases h with
  | importPackage hl | importAs hl =>
    simpa only [Command.target?, Workspace.filePackage?, hl, Change.target?] using ht
  | types | package | openFile | finish _ => cases ht
  | _ => exact ht

end Command

/-- A command leaves the packages alone that it is not aimed at. -/
theorem Workspace.after_agrees {w : Workspace} (h : w.Valid) (hq : c.target? w ≠ some q) :
    w.program.AgreesAt q (w.after c).program := by
  apply ((after_does h c).becomes h).rel (.refl q) fun _ _ _ => .trans
  rintro change _ _ ⟨r, hm⟩ hc
  exact hc.agreesAt fun ht => hq (hm.target? ht)

end SwitchCover

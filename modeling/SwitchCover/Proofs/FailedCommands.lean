import SwitchCover.Proofs.ScriptSteps

namespace SwitchCover

namespace Workspace

def TypesGrow (w v : Workspace) : Prop :=
  ∃ types, w.program.types.Extends types ∧ v = { w with program := { w.program with types } }

theorem typesGrow_of_changes {w : Workspace} (h : w.program.Changes .types q) :
    w.TypesGrow { w with program := q } := by
  cases h with
  | types ht => exact ⟨_, ht.2, rfl⟩

/-- The workspace with the cursor of its file behind the next token `needle`, if there is one. -/
def skip (w : Workspace) (needle : String) : Workspace :=
  match w.level with
  | .program => w
  | .file f => { w with level := .file (f.skip w.program.files needle) }
  | .func f g h => { w with level := .func (f.skip w.program.files needle) g h }

/-- The workspace with an identifier in the open function, if it is found. No position is given
to it, so later commands cannot refer to it. -/
def withIdent (w : Workspace) (name : String) : Workspace :=
  match w.level with
  | .func f g h =>
    match FuncM.ident name ⟨w.program, f, g, w.events⟩ with
    | .ok _ s => w.setFunc s h
    | .error _ _ => w
  | _ => w

/-- What a command that fails with a build error leaves of a workspace. -/
def Left (w v : Workspace) : Command → Prop
  | .decl (.declareIota ref package names) =>
    ∃ ty u k q, ScriptM.internRef ref w = .ok ty u ∧ w.TypesGrow u ∧
      w.program.StopsAt package names k ∧ u.program.AddsConsts q package ty 0 (names.take k) ∧
      v = { u with program := q }
  | .decl _ => w.TypesGrow v
  | .file (.openFunc _) => v = w.skip "func"
  | .func (.localVar _ _) => v = w.skip "var"
  | .func (.selector base _) => v = w.withIdent base
  | _ => v = w

variable {w v : Workspace}

theorem left_of_run (h : w.Valid) (hl : w.level = .func f g hs)
    (hr : c.run w.slots hs (w.funcState f g) = .error (.build b) t) :
    w.Left (w.setFunc t hs) (.func c) := by
  have hw : w.setFunc (w.funcState f g) hs = w := by rw [setFunc, funcState, ← hl]
  rw [(h.run_error hl hr).2 b rfl]
  cases c with
  | localVar name slot =>
    simp only [Left, skip, hl]
    rfl
  | selector base member =>
    simp only [Left, withIdent, hl, FuncCommand.leftover, FuncState.withIdent, funcState]
    cases FuncM.ident base ⟨w.program, f, g, w.events⟩ with
    | ok e s => rfl
    | error e s => exact hw
  | _ => exact hw

theorem Does.left (hd : w.Does c (some (.build b)) v) (h : w.Valid) : w.Left v c := by
  cases hd with
  | stops hl hq hc =>
    rename_i c
    cases c with
    | declareIota ref package names => exact absurd rfl (hc trivial b)
    | _ => exact typesGrow_of_changes hq
  | breaks hl hr ht hq hk ha =>
    refine ⟨_, _, _, _, hr, typesGrow_of_changes ht, ?_, ha, rfl⟩
    cases ht with
    | types => exact hk
  | unknown hl hc => rcases hc with rfl | ⟨name, rfl⟩ <;> rfl
  | headless hl hf =>
    simp only [Left, skip, hl, OpenFile.skip, hf]
    rw [← hl]
  | nameless hl hf hn => simp only [Left, skip, hl, OpenFile.skip, hf]
  | fails hl hr => exact left_of_run h hl hr

/-- A command that fails with a build error leaves the workspace as it was, apart from new types,
unless it is one of the four that are made of several steps. -/
theorem after_left (cs : List Command) (c : Command) (e : BuildError)
    (h : (empty.run cs).error? c = some (.build e)) :
    (empty.run cs).Left ((empty.run cs).after c) c := by
  have hd := after_does (run_valid cs) c
  rw [h] at hd
  exact hd.left (run_valid cs)

/-- Declarations stop at a name that stands in the list twice. -/
theorem after_left_repeated :
    let w := empty.run [.decl (.package ⟨"color"⟩ "color"),
      .decl (.defineType (.prim (.int .int)) ⟨"color"⟩ "Color")]
    let c := Command.decl (.declareIota (.slot 0) ⟨"color"⟩ ["Red", "Green", "Red", "Blue"])
    w.error? c = some (.build (.duplicateDeclaration ⟨"color"⟩ "Red")) ∧ w.Left (w.after c) c ∧
      ((w.after c).program.package? ⟨"color"⟩).map (·.scope.items.keys) =
        some ["Color", "Red", "Green"] :=
  ⟨by decide +kernel,
    after_left _ _ (.duplicateDeclaration ⟨"color"⟩ "Red") (by decide +kernel),
    by decide +kernel⟩

end Workspace

end SwitchCover

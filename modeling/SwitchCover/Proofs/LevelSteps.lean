import SwitchCover.Proofs.Histories
import SwitchCover.Proofs.Stability
import SwitchCover.Proofs.Tokens

namespace SwitchCover

namespace Level

def file? : Level → Option OpenFile
  | program => none
  | file f => some f
  | func f _ _ => some f

end Level

namespace OpenFile

def past (f : OpenFile) (store : FileStore) (needles : List String) : OpenFile :=
  { f with cursor := Token.endOf f.cursor (f.tokens store needles) }

end OpenFile

namespace Workspace

/-- The tokens that a command searches for. -/
def searches (w : Workspace) (c : Command) : List String :=
  match c, w.level with
  | .file (.openFunc name), .file _ => ["func", name]
  | .func c, .func _ _ h => c.needles w.slots h
  | _, _ => []

/-- What a command can do to what is open. -/
inductive Turns (w : Workspace) (c : Command) (v : Workspace) : Prop where
  | waits (hl : w.level = .program) (hv : v.level = .program)
    (hk : v.program.checkedFiles = w.program.checkedFiles)
  | opens (hl : w.level = .program) (hv : v.level = .file f)
    (hn : w.program.files.get? f.file = none) (hf : f.funcs = []) (hc : f.cursor = 0)
    (hk : v.program.checkedFiles = w.program.checkedFiles)
  | searches (imports : List Import) (hl : w.level = .file f)
    (hv : v.level = .file { f.past w.program.files (w.searches c) with imports })
    (hk : v.program.checkedFiles = w.program.checkedFiles)
  | starts (name : String) (range : TextRange) (hl : w.level = .file f)
    (hv : v.level = .func (f.past w.program.files (w.searches c)) ⟨name, range, .empty, ∅⟩ .empty)
    (hr : range ∈ (f.tokens w.program.files (w.searches c)).map Token.range)
    (hk : v.program.checkedFiles = w.program.checkedFiles)
  | closes (hl : w.level = .file f) (hv : v.level = .program) (hs : w.searches c = [])
    (hk : v.program.checkedFiles = w.program.checkedFiles ∨ v.program.checkedFiles =
      w.program.checkedFiles.insert f.file ⟨f.file, f.package, f.imports, f.funcs⟩)
  | runs (hl : w.level = .func f g h) (hr : w.RunsIn c f g h v)
  | ends (funcs : List Func) (hl : w.level = .func f g h)
    (hv : v.level = .file { f with funcs }) (hs : w.searches c = [])
    (hf : funcs = f.funcs ∨ ∃ ids, funcs = f.funcs ++ [g.finish ids])
    (hk : v.program.checkedFiles = w.program.checkedFiles)

theorem file?_of_file {w : Workspace} (hl : w.level = .file f) : w.level.file? = some f := by
  rw [hl, Level.file?]

theorem file?_of_func {w : Workspace} (hl : w.level = .func f g h) : w.level.file? = some f := by
  rw [hl, Level.file?]

theorem searches_func {w : Workspace} (hl : w.level = .func f g h) (c : Command) :
    w.searches c = c.needles w.slots h := by
  cases c with
  | decl c => rfl
  | file c => cases c <;> simp only [searches, hl, Command.needles]
  | func c => simp only [searches, hl, Command.needles]

theorem turns_of_file {w v : Workspace} (hl : w.level = .file f) (hs : w.searches c = [])
    (imports : List Import) (hv : v.level = .file { f with imports })
    (hk : v.program.checkedFiles = w.program.checkedFiles) : w.Turns c v := by
  refine .searches imports hl ?_ hk
  rw [hs, hv]
  rfl

theorem Does.turns {w v : Workspace} (hd : w.Does c e v) (h : w.Valid) : w.Turns c v := by
  have hk (hc : c ≠ .file .finish) := (hd.leads h hc).2.checked
  by_cases hf : ∃ f g hs, w.level = .func f g hs
  · obtain ⟨f, g, hs, hl⟩ := hf
    rcases hd.in_func hl with hr | ⟨hn, f', rfl, hf⟩
    · exact .runs hl hr
    · have hs : w.searches c = [] := (searches_func hl c).trans hn
      rcases hf with rfl | ⟨ids, rfl⟩
      · exact .ends f'.funcs hl rfl hs (.inl rfl) rfl
      · exact .ends _ hl rfl hs (.inr ⟨ids, rfl⟩) rfl
  · cases hd with
    | misplaced hc =>
      cases hl : w.level with
      | program => exact .waits hl hl rfl
      | file f =>
        refine turns_of_file hl ?_ f.imports hl rfl
        cases c with
        | file c =>
          rw [hl] at hc
          exact absurd trivial hc
        | _ => simp only [searches, hl]
      | func f g hs => exact absurd ⟨f, g, hs, hl⟩ hf
    | declares hl | stops hl | breaks hl => exact .waits hl hl (hk fun hc => by cases hc)
    | opens hl hp =>
      exact .opens hl rfl (List.getElem?_eq_none (Nat.le_refl _)) rfl rfl (hk fun hc => by cases hc)
    | imports hl hc hq =>
      refine turns_of_file hl ?_ _ rfl (hk ?_) <;> rcases hc with rfl | rfl
      · simp only [searches]
      · simp only [searches]
      · exact fun hc => by cases hc
      · exact fun hc => by cases hc
    | @unknown f _ _ _ hl hc =>
      refine turns_of_file hl ?_ f.imports hl rfl
      rcases hc with rfl | ⟨name, rfl⟩ <;> simp only [searches]
    | @starts f r name r' hl hf hn =>
      refine .starts name r' hl ?_ ?_ rfl
      · simp only [searches, hl, OpenFile.past, OpenFile.tokens, hf, hn]
        rfl
      · simp only [searches, hl, OpenFile.tokens, hf, hn, List.map_cons, List.mem_cons, true_or,
          or_true]
    | @headless f _ _ hl hf =>
      refine .searches f.imports hl ?_ rfl
      simp only [searches, hl, OpenFile.past, OpenFile.tokens, hf]
      rfl
    | @nameless f _ _ _ hl hf hn =>
      refine .searches f.imports hl ?_ rfl
      simp only [searches, hl, OpenFile.past, OpenFile.tokens, hf, hn]
      rfl
    | closes hl hq =>
      cases hq with
      | finish _ => exact .closes hl rfl (by simp only [searches]) (.inr rfl)
    | drops hl => exact .closes hl rfl (by simp only [searches]) (.inl rfl)
    | runs hl | fails hl | ends hl | unpicked hl | leaves hl => exact absurd ⟨_, _, _, hl⟩ hf

theorem after_turns {w : Workspace} (h : w.Valid) (c : Command) : w.Turns c (w.after c) :=
  (after_does h c).turns h

end Workspace

end SwitchCover

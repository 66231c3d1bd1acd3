import Mathlib.Data.List.Induction
import SwitchCover.Proofs.ScriptSteps

namespace SwitchCover

namespace Level

def funcs : Level → List Func
  | program => []
  | file f => f.funcs
  | func f _ _ => f.funcs

def body? : Level → Option Body
  | func _ g _ => some g.body
  | _ => none

end Level

namespace Workspace

def finished (w : Workspace) : List Body :=
  (w.program.checkedFiles.values.flatMap CheckedFile.funcs ++ w.level.funcs).map Func.body

theorem mem_finished {w : Workspace} : b ∈ w.finished ↔
    (∃ f ∈ w.program.checkedFiles.values, ∃ g ∈ f.funcs, g.body = b) ∨
      ∃ g ∈ w.level.funcs, g.body = b := by
  simp only [finished, List.map_append, List.mem_append, List.mem_map, List.mem_flatMap]
  grind

def bodies (w : Workspace) : List Body :=
  w.finished ++ w.level.body?.toList

/-- After a script a function is open with the given body, whose nodes the commands made in the
given order. -/
inductive Created : List Command → Body → List NodeId → Prop where
  | opened (hw : (empty.run cs).level.body? = none)
    (hv : (empty.run (cs ++ [c])).level.body? = some .empty) : Created (cs ++ [c]) .empty []
  | step (h : Created cs b log) (hv : (empty.run (cs ++ [c])).level.body? = some b')
    (hm : b.Makes new b') : Created (cs ++ [c]) b' (log ++ new)

theorem Created.makes (h : Created cs b log) : Body.empty.Makes log b := by
  induction h with
  | opened => exact .refl _
  | step _ _ hm ih => exact ih.trans hm

/-- What a command does to the bodies: the open one grows, and one that is finished was open. -/
structure Advances (w v : Workspace) : Prop where
  body : ∀ b', v.level.body? = some b' →
    (w.level.body? = none ∧ b' = .empty) ∨ ∃ b new, w.level.body? = some b ∧ b.Makes new b'
  finished : ∀ b ∈ v.finished, b ∈ w.finished ∨
    ∃ b₀ root, w.level.body? = some b₀ ∧ b = { b₀ with root }

variable {w v : Workspace}

theorem finished_subset (hk : v.program.checkedFiles = w.program.checkedFiles)
    (hf : v.level.funcs ⊆ w.level.funcs) : v.finished ⊆ w.finished := by
  intro b hb
  rw [mem_finished, hk] at hb
  rcases hb with hb | ⟨g, hg, he⟩
  · exact mem_finished.2 (.inl hb)
  · exact mem_finished.2 (.inr ⟨g, hf hg, he⟩)

/-- No function is open afterwards, and none was finished. -/
theorem advances_of_bare (hk : v.program.checkedFiles = w.program.checkedFiles)
    (hf : v.level.funcs ⊆ w.level.funcs) (hb : v.level.body? = none) : w.Advances v where
  body := fun b' hb' => by cases hb.symm.trans hb'
  finished := fun _ hb' => .inl (finished_subset hk hf hb')

theorem advances_of_level (hk : v.program.checkedFiles = w.program.checkedFiles)
    (hl : v.level = w.level) : w.Advances v where
  body := fun b hb => .inr ⟨b, [], hl ▸ hb, .refl b⟩
  finished := fun _ hb => .inl (finished_subset hk (fun _ hg => hl ▸ hg) hb)

theorem advances_setFunc (hl : w.level = .func f g h) (ht : (w.funcState f g).Leads t)
    (h' : Handles) : w.Advances (w.setFunc t h') where
  body := by
    obtain ⟨new, hm⟩ := ht.makes
    intro b hb
    cases hb
    exact .inr ⟨g.body, new, by simp only [hl, Level.body?], hm⟩
  finished := by
    refine fun _ hb => .inl (finished_subset ht.grows.checked ?_ hb)
    rw [hl]
    change t.file.funcs ⊆ f.funcs
    rw [ht.file]
    exact List.Subset.refl _

theorem advances_finish (hl : w.level = .file f) (hq : w.program.Changes (.finish f) q) :
    w.Advances { w with program := q, level := .program } where
  body := fun b hb => by cases hb
  finished := by
    intro b hb
    refine .inl (mem_finished.2 ?_)
    cases hq with
    | finish hf =>
      rcases mem_finished.1 hb with ⟨k, hk, g, hg, he⟩ | ⟨g, hg, _⟩
      · rcases OrderedMap.mem_values_insert hk with rfl | hk
        · exact .inr ⟨g, by simpa only [hl, Level.funcs] using hg, he⟩
        · exact .inl ⟨k, hk, g, hg, he⟩
      · cases hg

theorem Does.advances (hd : w.Does c e v) (h : w.Valid) : w.Advances v := by
  by_cases hc : c = .file .finish
  · subst hc
    cases hd with
    | misplaced | unknown => exact advances_of_level rfl rfl
    | imports _ hc _ => rcases hc with hc | hc <;> cases hc
    | closes hl hq => exact advances_finish hl hq
  · have hk := (hd.leads h hc).2.checked
    cases hd with
    | misplaced | unknown | headless | unpicked => exact advances_of_level hk rfl
    | declares | stops | breaks => exact advances_of_level hk rfl
    | opens hl _ => exact advances_of_bare hk (List.nil_subset _) rfl
    | drops hl => exact advances_of_bare hk (List.nil_subset _) rfl
    | imports hl | nameless hl | leaves hl =>
      refine advances_of_bare hk ?_ rfl
      simp only [hl, Level.funcs, List.Subset.refl]
    | closes => exact absurd rfl hc
    | starts hl _ _ =>
      refine ⟨?_, fun b hb => .inl (finished_subset hk ?_ hb)⟩
      · intro b hb
        cases hb
        exact .inl ⟨by simp only [hl, Level.body?], rfl⟩
      · simp only [hl, Level.funcs, List.Subset.refl]
    | runs hl hr => exact advances_setFunc hl (h.run_ok hl hr).1 _
    | fails hl hr => exact advances_setFunc hl (h.run_error hl hr).1 _
    | @ends f g _ ids _ hl hi =>
      refine ⟨fun b hb => (by cases hb), ?_⟩
      intro b hb
      rcases mem_finished.1 hb with hb | ⟨k, hk, he⟩
      · exact .inl (mem_finished.2 (.inl hb))
      · rcases List.mem_append.1 hk with hk | hk
        · have hk : k ∈ w.level.funcs := by simpa only [hl, Level.funcs] using hk
          exact .inl (mem_finished.2 (.inr ⟨k, hk, he⟩))
        · rw [List.mem_singleton.1 hk] at he
          exact .inr ⟨g.body, ids, by simp only [hl, Level.body?], he.symm⟩

/-- The body of the open function was made command by command since it was opened, and that of a
finished function up to the command that finished it. -/
theorem run_created (cs : List Command) :
    (∀ b, (empty.run cs).level.body? = some b → ∃ log, Created cs b log) ∧
      ∀ b ∈ (empty.run cs).finished, ∃ cs' b₀ log root,
        cs' <+: cs ∧ Created cs' b₀ log ∧ b = { b₀ with root } := by
  induction cs using List.reverseRecOn with
  | nil => exact ⟨fun b hb => (by cases hb), fun b hb => (by cases hb)⟩
  | append_singleton cs c ih =>
    have ha := (after_does (run_valid cs) c).advances (run_valid cs)
    rw [← run_concat] at ha
    constructor
    · intro b hb
      rcases ha.body b hb with ⟨hn, rfl⟩ | ⟨b₀, new, hb₀, hm⟩
      · exact ⟨[], .opened hn hb⟩
      · obtain ⟨log, hlog⟩ := ih.1 b₀ hb₀
        exact ⟨log ++ new, hlog.step hb hm⟩
    · intro b hb
      rcases ha.finished b hb with hb | ⟨b₀, root, hb₀, he⟩
      · obtain ⟨cs', b₀, log, root, hp, hc, he⟩ := ih.2 b hb
        exact ⟨cs', b₀, log, root, hp.trans (List.prefix_append _ _), hc, he⟩
      · obtain ⟨log, hlog⟩ := ih.1 b₀ hb₀
        exact ⟨cs, b₀, log, root, List.prefix_append _ _, hlog, he⟩

theorem created_of_mem_bodies (hb : b ∈ (empty.run cs).bodies) : ∃ cs' b₀ log root,
    cs' <+: cs ∧ Created cs' b₀ log ∧ b = { b₀ with root } ∧ Body.empty.Makes log b := by
  obtain ⟨hopen, hdone⟩ := run_created cs
  rcases List.mem_append.1 hb with hb | hb
  · obtain ⟨cs', b₀, log, root, hp, hc, rfl⟩ := hdone b hb
    exact ⟨cs', b₀, log, root, hp, hc, rfl, hc.makes.setRoot root⟩
  · obtain ⟨log, hc⟩ := hopen b (Option.mem_toList.1 hb)
    exact ⟨cs, b, log, b.root, List.prefix_refl _, hc, rfl, hc.makes⟩

end Workspace

end SwitchCover

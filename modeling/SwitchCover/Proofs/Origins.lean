import SwitchCover.Proofs.LevelSteps

namespace SwitchCover

theorem Body.stmtNode?_addStmt {b : Body} {id : StmtId}
    (h : (b.addStmt new).stmtNode? id = some node) :
    b.stmtNode? id = some node ∨ ¬b.Has (.stmt id) ∧ node = new := by
  simp only [stmtNode?, addStmt, List.getElem?_append] at h
  split at h
  next => exact .inl h
  next hlt =>
    refine .inr ⟨hlt, ?_⟩
    obtain ⟨_, hnew⟩ := List.getElem?_eq_some_iff.1 h
    rw [← hnew, List.getElem_singleton]

/-- A statement was there before a run, or the run made it. -/
theorem Run.stmtNode? {id : StmtId} (h : Run I s found t)
    (hn : t.func.body.stmtNode? id = some node) :
    s.func.body.stmtNode? id = some node ∨
      ¬s.func.body.Has (.stmt id) ∧ ∀ sw, node.stmt = .switch sw → node.range ∈ I.keywords := by
  induction h with
  | start => exact .inl hn
  | token _ _ ih => exact ih hn
  | quiet _ _ _ _ ih => exact ih hn
  | expr _ _ _ ih => exact ih hn
  | bind _ _ _ _ ih => exact ih hn
  | stmt h hr hs ih =>
    rcases Body.stmtNode?_addStmt hn with hold | ⟨hnew, rfl⟩
    · exact ih hold
    · exact .inr ⟨fun hhas => hnew (h.has hhas), hs⟩

namespace Workspace

variable {w : Workspace}

theorem mem_checkedFiles_after (h : w.Valid)
    (hf : f ∈ (w.after c).program.checkedFiles.values) :
    f ∈ w.program.checkedFiles.values ∨
      ∃ f₀, w.level = .file f₀ ∧ f.file = f₀.file ∧ f.funcs = f₀.funcs := by
  cases after_turns h c with
  | waits _ _ hk => exact .inl (hk ▸ hf)
  | opens _ _ _ _ _ hk => exact .inl (hk ▸ hf)
  | searches _ _ _ hk => exact .inl (hk ▸ hf)
  | starts _ _ _ _ _ hk => exact .inl (hk ▸ hf)
  | closes hl _ _ hk =>
    rcases hk with hk | hk
    · exact .inl (hk ▸ hf)
    · rw [hk] at hf
      rcases OrderedMap.mem_values_insert hf with rfl | hf
      · exact .inr ⟨_, hl, rfl, rfl⟩
      · exact .inl hf
  | runs hl hr =>
    obtain ⟨t, h', he, hrun, -⟩ := hr
    have hk : (w.after c).program.checkedFiles = w.program.checkedFiles := by
      rw [he, setFunc, hrun.program_eq]
      rfl
    exact .inl (hk ▸ hf)
  | ends _ _ _ _ _ hk => exact .inl (hk ▸ hf)

/-- A script left a function open in a file, and as it was then it was finished. -/
def FinishedFrom (cs : List Command) (id : FileId) (g : Func) : Prop :=
  ∃ f g' h root, (empty.run cs).level = .func f g' h ∧ f.file = id ∧ g = g'.finish root

theorem mem_funcs_after (h : w.Valid) (hl : (w.after c).level.file? = some f) (hg : g ∈ f.funcs) :
    ∃ f₀, w.level.file? = some f₀ ∧ f.file = f₀.file ∧
      (g ∈ f₀.funcs ∨ ∃ g₀ hs ids, w.level = .func f₀ g₀ hs ∧ g = g₀.finish ids) := by
  cases after_turns h c with
  | waits _ hv _ =>
    rw [hv] at hl
    cases hl
  | opens _ hv _ hf _ _ =>
    rw [hv] at hl
    cases hl
    rw [hf] at hg
    cases hg
  | searches imports hl' hv _ =>
    rw [hv] at hl
    cases hl
    exact ⟨_, file?_of_file hl', rfl, .inl hg⟩
  | starts name range hl' hv _ _ =>
    rw [hv] at hl
    cases hl
    exact ⟨_, file?_of_file hl', rfl, .inl hg⟩
  | closes _ hv _ _ =>
    rw [hv] at hl
    cases hl
  | runs hl' hr =>
    obtain ⟨t, h', he, hrun, -⟩ := hr
    rw [he] at hl
    cases hl
    rw [hrun.file_eq] at hg ⊢
    exact ⟨_, file?_of_func hl', rfl, .inl hg⟩
  | ends funcs hl' hv _ hf _ =>
    rw [hv] at hl
    cases hl
    refine ⟨_, file?_of_func hl', rfl, ?_⟩
    rcases hf with rfl | ⟨ids, rfl⟩
    · exact .inl hg
    · rcases List.mem_append.1 hg with hg | hg
      · exact .inl hg
      · exact .inr ⟨_, _, ids, hl', List.mem_singleton.1 hg⟩

/-- Every function of an open or finished file was once open in it. -/
theorem funcs_finished (cs : List Command) :
    (∀ f, (empty.run cs).level.file? = some f → ∀ g ∈ f.funcs,
      ∃ cs', cs' <+: cs ∧ FinishedFrom cs' f.file g) ∧
    ∀ f ∈ (empty.run cs).program.checkedFiles.values, ∀ g ∈ f.funcs,
      ∃ cs', cs' <+: cs ∧ FinishedFrom cs' f.file g := by
  induction cs using List.reverseRecOn with
  | nil => exact ⟨fun f hf => (by cases hf), fun f hf => (by cases hf)⟩
  | append_singleton cs c ih =>
    obtain ⟨hopen, hdone⟩ := ih
    have hlater {id : FileId} {g : Func} (h : ∃ cs', cs' <+: cs ∧ FinishedFrom cs' id g) :
        ∃ cs', cs' <+: cs ++ [c] ∧ FinishedFrom cs' id g := by
      obtain ⟨cs', hp, hg⟩ := h
      exact ⟨cs', hp.trans (List.prefix_append _ _), hg⟩
    rw [run_concat]
    constructor
    · intro f hl g hg
      obtain ⟨f₀, hl₀, hfile, hg | ⟨g₀, hs, ids, hlevel, rfl⟩⟩ :=
        mem_funcs_after (run_valid cs) hl hg
      · rw [hfile]
        exact hlater (hopen f₀ hl₀ g hg)
      · exact ⟨cs, List.prefix_append _ _, f₀, g₀, hs, ids, hlevel, hfile.symm, rfl⟩
    · intro f hf g hg
      rcases mem_checkedFiles_after (run_valid cs) hf with hf | ⟨f₀, hl, hfile, hfuncs⟩
      · exact hlater (hdone f hf g hg)
      · rw [hfile]
        exact hlater (hopen f₀ (file?_of_file hl) g (hfuncs ▸ hg))

/-- Only the command for a switch names a keyword. -/
theorem switch_of_keywords {c : Command} (hr : r ∈ (c.inputs h s).keywords) :
    ∃ kw init tag clauses, c = .func (.switch kw init tag clauses) ∧ h.ranges[kw]? = some r := by
  cases c with
  | decl c => cases hr
  | file c => cases hr
  | func c =>
    cases c with
    | switch kw init tag clauses =>
      exact ⟨kw, init, tag, clauses, rfl, Option.mem_toList.1 hr⟩
    | _ => cases hr

/-- A command made a statement of the open function as a switch, with the range `r` for its keyword,
which was among the ranges handed out. -/
def MadeAtKeyword (cs : List Command) (id : StmtId) (file : FileId) (r : TextRange) : Prop :=
  ∃ before kw init tag clauses f g h,
    MadeBy (.stmt id) before (.func (.switch kw init tag clauses)) cs ∧
    (empty.run before).level = .func f g h ∧ f.file = file ∧ h.ranges[kw]? = some r

theorem switch_made {id : StmtId} (hl : (empty.run cs).level = .func f g h)
    (hn : g.body.stmtNode? id = some node) (hs : node.stmt = .switch sw) :
    MadeAtKeyword cs id f.file node.range := by
  induction cs using List.reverseRecOn generalizing f g h with
  | nil => cases hl
  | append_singleton cs c ih =>
    rcases open_step hl with he | ⟨f₀, g₀, h₀, hl₀, t, h', he, hrun, -⟩
    · rw [he] at hn
      cases hn
    · have hb : (empty.run (cs ++ [c])).level.body? = some g.body := by rw [hl, Level.body?]
      rw [he] at hl
      cases hl
      have hfile : t.file.file = f₀.file := by
        rw [hrun.file_eq]
        rfl
      rcases hrun.stmtNode? hn with hold | ⟨hnew, hk⟩
      · obtain ⟨before, kw, init, tag, clauses, f', g', hs', hm, hl', hf', hr'⟩ := ih hl₀ hold
        have hm' := hm.later (d := c) (by rw [hb, Option.isSome_some])
        exact ⟨before, kw, init, tag, clauses, f', g', hs', hm', hl', hf'.trans hfile.symm, hr'⟩
      · obtain ⟨kw, init, tag, clauses, rfl, hkw⟩ := switch_of_keywords (hk sw hs)
        have hb₀ : (empty.run cs).level.body? = some g₀.body := by rw [hl₀, Level.body?]
        have hhas : t.func.body.Has (.stmt id) := (List.getElem?_eq_some_iff.1 hn).1
        exact ⟨cs, kw, init, tag, clauses, f₀, g₀, h₀, .new hb₀ hnew hb hhas, hl₀, hfile.symm, hkw⟩

end Workspace

end SwitchCover

import SwitchCover.Proofs.CreationOrder
import SwitchCover.Proofs.FuncRuns

namespace SwitchCover

def Command.inputs (c : Command) (h : Handles) (s : FuncState) : Inputs :=
  match c with
  | .func c => c.inputs h s
  | _ => ⟨fun _ => .other, fun _ _ => .other, [], [], []⟩

def Command.needles (c : Command) (slots : List TyId) (h : Handles) : List String :=
  match c with
  | .func c => c.needles slots h
  | _ => []

namespace Workspace

/-- What a command does that leaves a function open. -/
def RunsIn (w : Workspace) (c : Command) (f : OpenFile) (g : OpenFunc) (h : Handles)
    (v : Workspace) : Prop :=
  ∃ t h', v = w.setFunc t h' ∧
    Run (c.inputs h (w.funcState f g)) (w.funcState f g)
      ((w.funcState f g).tokens (c.needles w.slots h)) t ∧
    ∀ r ∈ h'.ranges, r ∈ h.ranges ∨
      r ∈ ((w.funcState f g).tokens (c.needles w.slots h)).map Token.range

variable {w : Workspace}

theorem ranges_add (h : Handles) (p : Product) (hr : r ∈ (h.add p).ranges) :
    r ∈ h.ranges ∨ p = .range r := by
  cases p with
  | range s =>
    rcases List.mem_append.1 hr with hr | hr
    · exact .inl hr
    · exact .inr (by rw [List.mem_singleton.1 hr])
  | _ => exact .inl hr

theorem runsIn_self (hl : w.level = .func f g h) (hn : c.needles w.slots h = []) :
    w.RunsIn c f g h w := by
  refine ⟨w.funcState f g, h, ?_, ?_, fun r hr => .inl hr⟩
  · rw [setFunc, funcState, ← hl]
  · rw [hn]
    exact .start

theorem runsIn_ok {c : FuncCommand} (hr : c.run w.slots h (w.funcState f g) = .ok p t) :
    w.RunsIn (.func c) f g h (w.setFunc t (h.add p)) := by
  obtain ⟨hrun, hp⟩ := (FuncCommand.run_runs w.slots h (w.funcState f g) c).ok hr
  refine ⟨t, h.add p, rfl, hrun, ?_⟩
  exact fun r hmem => (ranges_add h p hmem).imp_right fun he => hp r he

theorem runsIn_error {c : FuncCommand} (hr : c.run w.slots h (w.funcState f g) = .error e t) :
    w.RunsIn (.func c) f g h (w.setFunc t h) :=
  ⟨t, h, rfl, ((FuncCommand.run_runs w.slots h (w.funcState f g) c).error hr).1, fun _ => .inl⟩

/-- A command runs in the open function, or it drops or finishes it. -/
theorem Does.in_func (hd : w.Does c e v) (hl : w.level = .func f g h) :
    w.RunsIn c f g h v ∨ c.needles w.slots h = [] ∧
      ∃ f', v = { w with level := .file f' } ∧
        (f' = f ∨ ∃ ids, f' = { f with funcs := f.funcs ++ [g.finish ids] }) := by
  cases hd with
  | misplaced hc =>
    refine .inl (runsIn_self hl ?_)
    cases c with
    | func c =>
      rw [hl] at hc
      exact absurd trivial hc
    | _ => rfl
  | runs hl' hr =>
    cases hl.symm.trans hl'
    exact .inl (runsIn_ok hr)
  | fails hl' hr =>
    cases hl.symm.trans hl'
    exact .inl (runsIn_error hr)
  | ends hl' hi =>
    cases hl.symm.trans hl'
    exact .inr ⟨rfl, _, rfl, .inr ⟨_, rfl⟩⟩
  | unpicked _ => exact .inl (runsIn_self hl rfl)
  | leaves hl' =>
    cases hl.symm.trans hl'
    exact .inr ⟨rfl, f, rfl, .inl rfl⟩
  | declares hl' | stops hl' | breaks hl' | opens hl' => cases hl.symm.trans hl'
  | imports hl' | unknown hl' | starts hl' | headless hl' | nameless hl' => cases hl.symm.trans hl'
  | closes hl' | drops hl' => cases hl.symm.trans hl'

theorem level_of_body? (hb : w.level.body? = some b) :
    ∃ f g h, w.level = .func f g h ∧ g.body = b := by
  cases hl : w.level with
  | func f g h =>
    rw [hl] at hb
    exact ⟨f, g, h, rfl, Option.some.inj hb⟩
  | _ =>
    rw [hl] at hb
    cases hb

/-- A function that is open after a command was opened by it, or the command ran in it. -/
theorem open_step (hl : (empty.run (cs ++ [c])).level = .func f g h) :
    g.body = .empty ∨ ∃ f₀ g₀ h₀, (empty.run cs).level = .func f₀ g₀ h₀ ∧
      (empty.run cs).RunsIn c f₀ g₀ h₀ (empty.run (cs ++ [c])) := by
  have hd := after_does (run_valid cs) c
  have ha := hd.advances (run_valid cs)
  rw [run_concat] at hl ⊢
  have hb : ((empty.run cs).after c).level.body? = some g.body := by rw [hl, Level.body?]
  rcases ha.body g.body hb with ⟨_, he⟩ | ⟨b₀, _, hb₀, _⟩
  · exact .inl he
  · obtain ⟨f₀, g₀, h₀, hl₀, rfl⟩ := level_of_body? hb₀
    rcases hd.in_func hl₀ with hr | ⟨_, f', he, _⟩
    · exact .inr ⟨f₀, g₀, h₀, hl₀, hr⟩
    · rw [he] at hl
      cases hl

/-- The command `c` after the commands `before` made a node of the function that is still open after
the whole script. -/
inductive MadeBy (n : NodeId) (before : List Command) (c : Command) : List Command → Prop where
  | new (hb : (empty.run before).level.body? = some b) (hn : ¬b.Has n)
    (hb' : (empty.run (before ++ [c])).level.body? = some b') (hn' : b'.Has n) :
    MadeBy n before c (before ++ [c])
  | later (h : MadeBy n before c cs) (hb : ((empty.run (cs ++ [d])).level.body?).isSome) :
    MadeBy n before c (cs ++ [d])

theorem has_after (hb : (empty.run cs).level.body? = some b) (hn : b.Has n)
    (hb' : (empty.run (cs ++ [c])).level.body? = some b') : b'.Has n := by
  have ha := (after_does (run_valid cs) c).advances (run_valid cs)
  rw [← run_concat] at ha
  rcases ha.body b' hb' with ⟨hnone, -⟩ | ⟨b₀, new, hb₀, hm⟩
  · cases hb.symm.trans hnone
  · cases hb.symm.trans hb₀
    exact (hm.has n).2 (.inl hn)

theorem MadeBy.has (h : MadeBy n before c cs) :
    ∃ b, (empty.run cs).level.body? = some b ∧ b.Has n := by
  induction h with
  | new _ _ hb' hn' => exact ⟨_, hb', hn'⟩
  | later _ hb ih =>
    obtain ⟨b, hb₀, hn⟩ := ih
    obtain ⟨b', hb'⟩ := Option.isSome_iff_exists.1 hb
    exact ⟨b', hb', has_after hb₀ hn hb'⟩

/-- A node is made once. -/
theorem MadeBy.unique (h : MadeBy n before c cs) (h' : MadeBy n before' c' cs) :
    before = before' ∧ c = c' := by
  induction h with
  | new hb hn _ _ =>
    generalize hcs : before ++ [c] = cs at h'
    cases h' with
    | new =>
      obtain ⟨rfl, he⟩ := List.append_inj' hcs rfl
      exact ⟨rfl, (List.cons.inj he).1⟩
    | later h' _ =>
      obtain ⟨rfl, -⟩ := List.append_inj' hcs rfl
      obtain ⟨b', hb', hn'⟩ := h'.has
      cases hb.symm.trans hb'
      exact absurd hn' hn
  | later h _ ih =>
    rename_i cs d _
    generalize hcs : cs ++ [d] = ds at h'
    cases h' with
    | new hb hn _ _ =>
      obtain ⟨rfl, -⟩ := List.append_inj' hcs rfl
      obtain ⟨b', hb', hn'⟩ := h.has
      cases hb.symm.trans hb'
      exact absurd hn' hn
    | later h' _ =>
      obtain ⟨rfl, -⟩ := List.append_inj' hcs rfl
      exact ih h'

end Workspace

end SwitchCover

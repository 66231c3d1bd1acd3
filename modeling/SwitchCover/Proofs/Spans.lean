import SwitchCover.Proofs.Findings
import SwitchCover.Proofs.Origins
import SwitchCover.Proofs.Preorder
import SwitchCover.Proofs.WholeRuns

namespace SwitchCover

def FileStore.chars (store : FileStore) (id : FileId) : List Char :=
  match store.get? id with
  | some source => source.chars
  | none => []

def CheckedFile.ranges (f : CheckedFile) : List TextRange :=
  f.funcs.flatMap Func.ranges

theorem Text.byteLength_pos (h : cs ≠ []) : 0 < byteLength cs := by
  cases cs with
  | nil => exact absurd rfl h
  | cons c cs => exact Nat.lt_of_lt_of_le c.utf8Size_pos (Nat.le_add_right _ _)

namespace Level

def handles : Level → List TextRange
  | func _ _ h => h.ranges
  | _ => []

def ranges : Level → List TextRange
  | program => []
  | file f => f.funcs.flatMap Func.ranges
  | func f g h => f.funcs.flatMap Func.ranges ++ g.range :: g.body.ranges ++ h.ranges

end Level

theorem Token.endOf_append (n : Nat) (ts us : List Token) :
    endOf n (ts ++ us) = endOf (endOf n ts) us := by
  simp only [endOf, List.getLast?_append]
  cases us.getLast? <;> rfl

namespace Workspace

def found (w : Workspace) (id : FileId) (c : Command) : List Token :=
  match w.level.file? with
  | some f => if f.file = id then f.tokens w.program.files (w.searches c) else []
  | none => []

/-- The tokens that a script locates in a file, in this order. -/
def located : Workspace → FileId → List Command → List Token
  | _, _, [] => []
  | w, id, c :: cs => w.found id c ++ (w.after c).located id cs

theorem located_concat (w : Workspace) (id : FileId) (cs : List Command) (c : Command) :
    w.located id (cs ++ [c]) = w.located id cs ++ (w.run cs).found id c := by
  induction cs generalizing w with
  | nil => simp [located, run]
  | cons d cs ih =>
    rw [List.cons_append, located, ih, located, List.append_assoc]
    rfl

theorem found_open {w : Workspace} (hl : w.level.file? = some f) (c : Command) :
    w.found f.file c = f.tokens w.program.files (w.searches c) := by
  rw [found, hl]
  exact if_pos rfl

/-- With the tokens `ts` located in the open file, its cursor stands behind the last of them, no
range reaches beyond the cursor, and the ranges handed out are those of tokens. -/
structure FilePlaced (f : OpenFile) (level : Level) (cs : List Char) (ts : List Token) : Prop where
  cursor : f.cursor = Token.endOf 0 ts
  ranges : ∀ r ∈ level.ranges, r.Fits cs f.cursor
  handles : ∀ r ∈ level.handles, r ∈ ts.map Token.range

/-- The tokens `L` were located in the files of the workspace, and all ranges lie within the text
up to the last of them. -/
structure Placed (w : Workspace) (L : FileId → List Token) : Prop where
  fresh : ∀ id, w.program.files.get? id = none → L id = []
  chain : ∀ id, Follows (w.program.files.chars id) 0 (L id) (Token.endOf 0 (L id))
  opened : ∀ f, w.level.file? = some f →
    FilePlaced f w.level (w.program.files.chars f.file) (L f.file)
  checked : ∀ f ∈ w.program.checkedFiles.values, ∀ r ∈ f.ranges,
    r.Fits (w.program.files.chars f.file) (Token.endOf 0 (L f.file))

variable {w v : Workspace} {L : FileId → List Token} {id : FileId}

theorem Valid.stored_open (h : w.Valid) (hl : w.level.file? = some f) :
    (w.program.files.get? f.file).isSome := by
  have hf : f.Valid w.program := by
    have hv := h.level
    cases hw : w.level with
    | program =>
      rw [hw] at hl
      cases hl
    | file f' =>
      rw [hw] at hl hv
      cases hl
      exact hv
    | func f' g hs =>
      rw [hw] at hl hv
      cases hl
      exact hv.1
  exact Option.isSome_iff_exists.2 ⟨_, List.getElem?_eq_getElem hf.stored⟩

theorem Valid.stored_checked (h : w.Valid) (hf : f ∈ w.program.checkedFiles.values) :
    (w.program.files.get? f.file).isSome := by
  have hstored := (h.program.files _ f (h.program.checkedFile?_of_mem hf)).stored
  exact Option.isSome_iff_exists.2 ⟨_, List.getElem?_eq_getElem hstored⟩

theorem get?_after (h : w.Valid) (c : Command) (hs : w.program.files.get? id = some src) :
    (w.after c).program.files.get? id = some src := by
  obtain ⟨rest, hrest⟩ := after_texts h c
  have hlt := (List.getElem?_eq_some_iff.1 hs).1
  rw [FileStore.get?, ← hrest, List.getElem?_append_left hlt]
  exact hs

theorem chars_after (h : w.Valid) (c : Command) (hs : (w.program.files.get? id).isSome) :
    (w.after c).program.files.chars id = w.program.files.chars id := by
  obtain ⟨src, hsrc⟩ := Option.isSome_iff_exists.1 hs
  rw [FileStore.chars, FileStore.chars, hsrc, get?_after h c hsrc]

theorem found_fresh (h : w.Valid) (hn : w.program.files.get? id = none) (c : Command) :
    w.found id c = [] := by
  rw [found]
  split
  next f hl =>
    apply if_neg
    rintro rfl
    have hs := h.stored_open hl
    rw [hn] at hs
    cases hs
  next => rfl

namespace Placed

theorem found_follows (h : w.Placed L) (id : FileId) (c : Command) :
    Follows (w.program.files.chars id) (Token.endOf 0 (L id)) (w.found id c)
      (Token.endOf 0 (L id ++ w.found id c)) := by
  rw [Token.endOf_append, found]
  split
  next f hl =>
    split
    next hf =>
      subst hf
      rw [← (h.opened f hl).cursor]
      obtain ⟨n, hn⟩ := f.tokens_follows w.program.files (w.searches c)
      rw [← hn.endOf]
      exact hn
    next => exact .nil
  next => exact .nil

theorem chain_after (h : w.Placed L) (hv : w.Valid) (id : FileId) (c : Command) :
    Follows ((w.after c).program.files.chars id) 0 (L id ++ w.found id c)
      (Token.endOf 0 (L id ++ w.found id c)) := by
  cases hid : w.program.files.get? id with
  | none =>
    rw [h.fresh id hid, found_fresh hv hid]
    exact .nil
  | some src =>
    rw [chars_after hv c (by rw [hid, Option.isSome_some])]
    exact (h.chain id).trans (h.found_follows id c)

theorem cursor_past (h : w.Placed L) (hl : w.level.file? = some f) (c : Command) :
    (f.past w.program.files (w.searches c)).cursor =
      Token.endOf 0 (L f.file ++ w.found f.file c) := by
  rw [Token.endOf_append, ← (h.opened f hl).cursor, found_open hl]
  rfl

/-- The open file after a command that located its tokens: old ranges stay within the text passed,
and it remains to see that the new ones lie there. -/
theorem opened_of (h : w.Placed L) (hv : w.Valid) (hl : w.level.file? = some f)
    (hfile : f'.file = f.file) (hcur : f'.cursor = (f.past w.program.files (w.searches c)).cursor)
    (hr : ∀ r ∈ (w.after c).level.ranges,
      r ∈ w.level.ranges ∨ r.Fits (w.program.files.chars f.file) f'.cursor)
    (hh : ∀ r ∈ (w.after c).level.handles,
      r ∈ w.level.handles ∨ r ∈ (w.found f.file c).map Token.range) :
    FilePlaced f' (w.after c).level ((w.after c).program.files.chars f'.file)
      (L f'.file ++ w.found f'.file c) := by
  have hf := h.opened f hl
  rw [hfile, chars_after hv c (hv.stored_open hl)]
  rw [h.cursor_past hl] at hcur
  refine ⟨hcur, ?_, ?_⟩
  · intro r hmem
    rcases hr r hmem with hold | hnew
    · apply (hf.ranges r hold).mono
      rw [hf.cursor, hcur]
      exact (h.found_follows f.file c).le
    · exact hnew
  · intro r hmem
    rw [List.map_append, List.mem_append]
    exact (hh r hmem).imp_left (hf.handles r)

theorem mem_ranges_of_inputs {c : Command} (hr : r ∈ (c.inputs h s).ranges) : r ∈ h.ranges := by
  cases c with
  | func c => exact hr
  | decl c => cases hr
  | file c => cases hr

theorem opened_run (h : w.Placed L) (hv : w.Valid) (hl : w.level = .func f g hs)
    (hr : w.RunsIn c f g hs (w.after c)) (hl' : (w.after c).level.file? = some f') :
    FilePlaced f' (w.after c).level ((w.after c).program.files.chars f'.file)
      (L f'.file ++ w.found f'.file c) := by
  have hopen : w.level.file? = some f := file?_of_func hl
  have hfound : w.found f.file c = (w.funcState f g).tokens (c.needles w.slots hs) := by
    rw [found_open hopen, searches_func hl]
    rfl
  obtain ⟨t, h', he, hrun, hh⟩ := hr
  rw [he] at hl'
  cases hl'
  have hcur : t.file.cursor = (f.past w.program.files (w.searches c)).cursor := by
    rw [hrun.follows.endOf, searches_func hl]
    rfl
  have hf := h.opened f hopen
  have hb : Text.IsBoundary (w.program.files.chars f.file) f.cursor := by
    rw [hf.cursor]
    exact (h.chain f.file).boundary (Text.isBoundary_zero _)
  have hold : ∀ r ∈ w.level.ranges, r.Fits (w.program.files.chars f.file) f.cursor := hf.ranges
  have hbody : ∀ r ∈ t.func.body.ranges, r.Fits (w.program.files.chars f.file) t.file.cursor := by
    apply hrun.fits rfl hb
    · intro r hmem
      apply hold
      rw [hl]
      exact List.mem_append_right _ (mem_ranges_of_inputs hmem)
    · intro r hmem
      apply hold
      rw [hl]
      exact List.mem_append_left _ (List.mem_append_right _ (List.mem_cons_of_mem _ hmem))
  apply h.opened_of hv hopen (by rw [hrun.file_eq]; rfl) hcur
  · intro r hmem
    have hfuncs : t.file.funcs = f.funcs := by
      rw [hrun.file_eq]
      rfl
    have hrange : t.func.range = g.range := hrun.range_eq
    simp only [he, setFunc, Level.ranges, hfuncs, hrange, List.mem_append, List.mem_cons] at hmem
    simp only [hl, Level.ranges, List.mem_append, List.mem_cons]
    rcases hmem with (hmem | hmem | hmem) | hmem
    · exact .inl (.inl (.inl hmem))
    · exact .inl (.inl (.inr (.inl hmem)))
    · exact .inr (hbody r hmem)
    · rcases hh r hmem with hmem | hmem
      · exact .inl (.inr hmem)
      · obtain ⟨token, ht, rfl⟩ := List.mem_map.1 hmem
        rw [← hfound] at ht
        rw [hcur, h.cursor_past hopen]
        exact .inr ((h.found_follows f.file c).fits ht)
  · intro r hmem
    rw [he] at hmem
    rw [hl, hfound]
    exact hh r hmem

theorem opened_after (h : w.Placed L) (hv : w.Valid) (hl' : (w.after c).level.file? = some f') :
    FilePlaced f' (w.after c).level ((w.after c).program.files.chars f'.file)
      (L f'.file ++ w.found f'.file c) := by
  cases after_turns hv c with
  | waits _ hv' _ =>
    rw [hv'] at hl'
    cases hl'
  | opens hl hv' hn hf hc _ =>
    rw [hv'] at hl'
    cases hl'
    rw [h.fresh _ hn, found_fresh hv hn, hv']
    refine ⟨hc, ?_, ?_⟩
    · intro r hr
      simp only [Level.ranges, hf, List.flatMap_nil] at hr
      cases hr
    · intro r hr
      cases hr
  | searches imports hl hv' hk =>
    rename_i f
    have hopen : w.level.file? = some f := file?_of_file hl
    rw [hv'] at hl'
    cases hl'
    refine h.opened_of hv hopen ?_ ?_ ?_ ?_
    · rfl
    · rfl
    · intro r hr
      rw [hv'] at hr
      rw [hl]
      exact .inl hr
    · intro r hr
      rw [hv'] at hr
      cases hr
  | starts name range hl hv' hr hk =>
    rename_i f
    have hopen : w.level.file? = some f := file?_of_file hl
    rw [hv'] at hl'
    cases hl'
    refine h.opened_of hv hopen ?_ ?_ ?_ ?_
    · rfl
    · rfl
    · intro r hmem
      simp only [hv', Level.ranges, Body.ranges, Handles.empty, Body.empty, List.map_nil,
        List.append_nil, List.mem_append, List.mem_singleton] at hmem
      rcases hmem with hmem | rfl
      · rw [hl]
        exact .inl hmem
      · obtain ⟨t, ht, rfl⟩ := List.mem_map.1 hr
        rw [← found_open hopen] at ht
        rw [h.cursor_past hopen]
        exact .inr ((h.found_follows f.file c).fits ht)
    · intro r hmem
      rw [hv'] at hmem
      cases hmem
  | closes _ hv' _ _ =>
    rw [hv'] at hl'
    cases hl'
  | runs hl hr => exact h.opened_run hv hl hr hl'
  | ends funcs hl hv' hs hf hk =>
    rename_i f g hs'
    have hopen : w.level.file? = some f := file?_of_func hl
    rw [hv'] at hl'
    cases hl'
    refine h.opened_of hv hopen ?_ ?_ ?_ ?_
    · rfl
    · rw [hs]
      rfl
    · intro r hmem
      rw [hl]
      left
      simp only [hv', Level.ranges, List.mem_append, List.mem_cons] at hmem ⊢
      rcases hf with rfl | ⟨ids, rfl⟩
      · exact .inl (.inl hmem)
      · simp only [List.flatMap_append, List.flatMap_cons, List.flatMap_nil, List.append_nil,
          List.mem_append] at hmem
        have hg : (g.finish ids).ranges = g.range :: g.body.ranges := rfl
        rw [hg, List.mem_cons] at hmem
        exact .inl hmem
    · intro r hmem
      rw [hv'] at hmem
      cases hmem

theorem checked_after (h : w.Placed L) (hv : w.Valid)
    (hf : f ∈ (w.after c).program.checkedFiles.values) (hr : r ∈ f.ranges) :
    r.Fits ((w.after c).program.files.chars f.file)
      (Token.endOf 0 (L f.file ++ w.found f.file c)) := by
  have hle := (h.found_follows f.file c).le
  rcases mem_checkedFiles_after hv hf with hf | ⟨f₀, hl, hfile, hfuncs⟩
  · rw [chars_after hv c (hv.stored_checked hf)]
    exact (h.checked f hf r hr).mono hle
  · have hopen : w.level.file? = some f₀ := file?_of_file hl
    have hplaced := h.opened f₀ hopen
    rw [hfile] at hle ⊢
    rw [chars_after hv c (hv.stored_open hopen)]
    apply TextRange.Fits.mono _ hle
    rw [← hplaced.cursor]
    apply hplaced.ranges
    rw [CheckedFile.ranges, hfuncs] at hr
    rw [hl]
    exact hr

theorem after (h : w.Placed L) (hv : w.Valid) (c : Command) :
    (w.after c).Placed fun id => L id ++ w.found id c where
  fresh := by
    intro id hn
    have hw : w.program.files.get? id = none := by
      by_contra hs
      obtain ⟨src, hsrc⟩ := Option.ne_none_iff_exists'.1 hs
      cases hn.symm.trans (get?_after hv c hsrc)
    rw [h.fresh id hw, found_fresh hv hw, List.append_nil]
  chain := fun id => h.chain_after hv id c
  opened := fun f hl => h.opened_after hv hl
  checked := fun f hf r hr => h.checked_after hv hf hr

end Placed

theorem run_placed (cs : List Command) :
    (empty.run cs).Placed fun id => empty.located id cs := by
  induction cs using List.reverseRecOn with
  | nil =>
    refine ⟨fun id _ => rfl, fun id => .nil, fun f hl => (by cases hl), ?_⟩
    exact fun f hf => by cases hf
  | append_singleton cs c ih =>
    simp only [located_concat]
    rw [run_concat]
    exact ih.after (run_valid cs) c

theorem chars_of_get? {store : FileStore} (h : store.get? id = some src) :
    store.chars id = src.chars := by
  rw [FileStore.chars, h]

/-- The range of a token that was located behind those located before it. -/
structure LocatedBehind (ts : List Token) (cs : List Char) (needle : String) (r : TextRange)
    (f f' : OpenFile) : Prop where
  behind : ∀ t ∈ ts, t.range.stop ≤ r.start
  cursor : f'.cursor = r.stop
  fits : r.Fits cs f'.cursor
  text : Text.slice? cs r.start r.stop = some needle.toList
  advances : needle ≠ "" → f.cursor < f'.cursor

theorem Placed.locate (h : w.Placed L) (hl : w.level.file? = some f) (needle : String)
    (r : TextRange) (s : FileState) (hr : FileM.locate needle ⟨w.program, f⟩ = .ok r s) :
    LocatedBehind (L f.file) (w.program.files.chars f.file) needle r f s.file := by
  rw [FileM.locate_eq] at hr
  split at hr
  next r hloc =>
    cases hr
    obtain ⟨hle, hs⟩ := OpenFile.locate?_spec hloc
    obtain ⟨hstart, hstop, hlen⟩ := Text.isBoundary_of_slice? hs
    refine ⟨?_, rfl, ⟨by omega, Nat.le_refl _, hstart, hstop⟩, hs, ?_⟩
    · intro t ht
      have hwithin := ((h.chain f.file).fits ht).within
      rw [← (h.opened f hl).cursor] at hwithin
      exact Nat.le_trans hwithin hle
    · intro hne
      have hpos : 0 < Text.byteLength needle.toList := by
        apply Text.byteLength_pos
        simpa using hne
      change f.cursor < r.stop
      simp only at hle
      omega
  next => cases hr

/-- A finding on a finished file points at the keyword with which its switch was made. -/
def FoundAtKeyword (cs : List Command) (registry : Registry) (settings : Settings)
    (f : CheckedFile) (u : UncoveredSwitch) : Prop :=
  ∃ g ∈ f.funcs, ∃ id s cs', (id, s) ∈ g.body.switches ∧
    (Rule.checkSwitch (empty.run cs).program registry settings f.file g.body id s).value = some u ∧
    cs' <+: cs ∧ FinishedFrom cs' f.file g ∧ u.span.file = f.file ∧
    MadeAtKeyword cs' id f.file u.span.range

theorem found_at_keyword (hf : f ∈ (empty.run cs).program.checkedFiles.values)
    (hu : u ∈ (Rule.checkFile (empty.run cs).program registry settings f).value) :
    FoundAtKeyword cs registry settings f u := by
  have hvalid := (run_valid cs).program
  obtain ⟨g, hg, id, s, hs, hval⟩ := Rule.mem_checkFile.1 hu
  obtain ⟨cs', hp, hfin⟩ := (funcs_finished cs).2 f hf g hg
  refine ⟨g, hg, id, s, cs', hs, hval, hp, hfin, ?_⟩
  obtain ⟨_, _, _, _, _, _, _, _, _, rfl⟩ := Rule.checkSwitch_eq_some.1 hval
  have hbody := (hvalid.files _ f (hvalid.checkedFile?_of_mem hf)).bodies g hg
  obtain ⟨_, hstmt⟩ := hbody.ordered.acyclic.mem_switches.1 hs
  obtain ⟨node, hn, hnode⟩ := Option.map_eq_some_iff.1 hstmt
  obtain ⟨f', g', h, root, hl, hfile, rfl⟩ := hfin
  have hrange : (g'.finish root).body.stmtRange id = node.range := by
    rw [Body.stmtRange, hn]
  refine ⟨rfl, ?_⟩
  simp only [hrange]
  rw [← hfile]
  exact switch_made hl hn hnode

/-- Located tokens go forward through the text and all ranges are slices of it. In every file the
tokens located so far stand one behind the other, each at its own text. The cursor of the open file
stands at the end of the last one, no range reaches beyond it, the ranges handed out are those of
located tokens, and the next token is found behind them. The same bounds hold for finished files,
and their findings point at the keywords of the switches. -/
theorem ranges_within_text (cs : List Command) :
    (∀ id src, (empty.run cs).program.files.get? id = some src →
      (empty.located id cs).Pairwise (fun t u => t.range.stop ≤ u.range.start) ∧
      ∀ t ∈ empty.located id cs,
        Text.slice? src.chars t.range.start t.range.stop = some t.needle.toList) ∧
    (∀ f, (empty.run cs).level.file? = some f → ∃ src,
      (empty.run cs).program.files.get? f.file = some src ∧
      f.cursor = Token.endOf 0 (empty.located f.file cs) ∧
      f.cursor ≤ Text.byteLength src.chars ∧
      (∀ r ∈ (empty.run cs).level.ranges, r.Fits src.chars f.cursor) ∧
      (∀ r ∈ (empty.run cs).level.handles, r ∈ (empty.located f.file cs).map Token.range) ∧
      ∀ needle r s, FileM.locate needle ⟨(empty.run cs).program, f⟩ = .ok r s →
        LocatedBehind (empty.located f.file cs) src.chars needle r f s.file) ∧
    ∀ f ∈ (empty.run cs).program.checkedFiles.values, ∃ src,
      (empty.run cs).program.files.get? f.file = some src ∧
      Token.endOf 0 (empty.located f.file cs) ≤ Text.byteLength src.chars ∧
      (∀ r ∈ f.ranges, r.Fits src.chars (Token.endOf 0 (empty.located f.file cs))) ∧
      ∀ registry settings, ∀ u ∈ (Rule.checkFile (empty.run cs).program registry settings f).value,
        FoundAtKeyword cs registry settings f u := by
  have h := run_placed cs
  have hend (id : FileId) : Token.endOf 0 (empty.located id cs) ≤
      Text.byteLength ((empty.run cs).program.files.chars id) :=
    ((h.chain id).boundary (Text.isBoundary_zero _)).le
  refine ⟨?_, ?_, ?_⟩
  · intro id src hsrc
    have hchain := h.chain id
    rw [chars_of_get? hsrc] at hchain
    exact ⟨hchain.pairwise, fun t ht => hchain.slice ht⟩
  · intro f hl
    obtain ⟨src, hsrc⟩ := Option.isSome_iff_exists.1 ((run_valid cs).stored_open hl)
    have hf := h.opened f hl
    have hlocate := h.locate hl
    have hle := hend f.file
    rw [chars_of_get? hsrc] at hf hlocate hle
    exact ⟨src, hsrc, hf.cursor, hf.cursor ▸ hle, hf.ranges, hf.handles, hlocate⟩
  · intro f hf
    obtain ⟨src, hsrc⟩ := Option.isSome_iff_exists.1 ((run_valid cs).stored_checked hf)
    have hranges := h.checked f hf
    have hle := hend f.file
    rw [chars_of_get? hsrc] at hranges hle
    refine ⟨src, hsrc, hle, hranges, ?_⟩
    exact fun registry settings u hu => found_at_keyword hf hu

end Workspace

end SwitchCover

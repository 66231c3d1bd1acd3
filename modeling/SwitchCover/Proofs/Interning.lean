import Mathlib.Data.Finset.Card
import SwitchCover.Proofs.Strict

namespace SwitchCover

/-- Answers of calls that are made one after another, and the state after the last. -/
def callAll (call : σ → α → β × σ) (s : σ) : List α → List β × σ
  | [] => ([], s)
  | a :: as =>
    let first := call s a
    let rest := callAll call first.2 as
    (first.1 :: rest.1, rest.2)

theorem callAll_append (call : σ → α → β × σ) (s : σ) (as bs : List α) :
    callAll call s (as ++ bs) =
      ((callAll call s as).1 ++ (callAll call (callAll call s as).2 bs).1,
        (callAll call (callAll call s as).2 bs).2) := by
  induction as generalizing s with
  | nil => rfl
  | cons a as ih => simp only [List.cons_append, callAll, ih]

theorem callAll_related {f : σ → α → β × σ} {g : τ → α → β × τ} {R : σ → τ → Prop}
    (step : ∀ s t a, R s t → (f s a).1 = (g t a).1 ∧ R (f s a).2 (g t a).2) (h : R s t)
    (as : List α) :
    (callAll f s as).1 = (callAll g t as).1 ∧ R (callAll f s as).2 (callAll g t as).2 := by
  induction as generalizing s t with
  | nil => exact ⟨rfl, h⟩
  | cons a as ih =>
    obtain ⟨hanswer, hnext⟩ := step s t a h
    obtain ⟨hanswers, hlast⟩ := ih hnext
    exact ⟨congrArg₂ List.cons hanswer hanswers, hlast⟩

theorem TyData.render_congr {data : TyData} {f g : TyId → String}
    (h : ∀ c ∈ data.components, f c = g c) : data.render f = data.render g := by
  cases data with
  | pointer elem => rw [render, render, h elem List.mem_cons_self]
  | slice elem => rw [render, render, h elem List.mem_cons_self]
  | signature params results =>
    have hp : params.map f = params.map g :=
      List.map_congr_left fun c hc => h c (List.mem_append_left results hc)
    have hr : results.map f = results.map g :=
      List.map_congr_left fun c hc => h c (List.mem_append_right params hc)
    cases results with
    | nil => simp only [render, hp]
    | cons result more =>
      cases more with
      | nil => simp only [render, hp, List.head_eq_of_cons_eq hr]
      | cons result' more => simp only [render, hp, hr]
  | _ => rfl

namespace TypeTable

theorem Valid.display_eq {table : TypeTable} (h : table.Valid) (hd : table.data? ty = some data) :
    table.display ty = data.render table.display := by
  have hty := has_of_data? hd
  have hfuel : ∀ c ∈ data.components, table.displayWithin ty.index c = table.display c := by
    intro c hc
    have hlt := h ty data hd c hc
    have hhas : table.Has c := Nat.lt_trans hlt hty
    have hwithin := Strict.display_eq h hhas (Nat.lt_succ_self _) hlt
    have hshown := Strict.display_eq h hhas (Nat.lt_succ_self _) (Nat.lt_succ_self _)
    exact Option.some.inj (hwithin.symm.trans hshown)
  rw [display, displayWithin]
  simp only [hd]
  exact TyData.render_congr hfuel

theorem mem_types_of_data? {table : TypeTable} (h : table.data? ty = some data) :
    data ∈ table.types :=
  List.mem_of_getElem? h

theorem mem_types_intern {table : TypeTable} :
    d ∈ (table.intern data).2.types ↔ d ∈ table.types ∨ d = data := by
  obtain ⟨ty, hd, he⟩ | ⟨-, he⟩ := table.intern_cases data
  · have hm := mem_types_of_data? hd
    rw [he]
    exact ⟨.inl, fun h => h.elim id fun heq => heq ▸ hm⟩
  · rw [he, List.mem_append, List.mem_singleton]

theorem nodup_intern {table : TypeTable} (h : table.types.Nodup) (data : TyData) :
    (table.intern data).2.types.Nodup := by
  obtain ⟨ty, -, he⟩ | ⟨hnew, he⟩ := table.intern_cases data
  · rw [he]
    exact h
  · rw [he]
    exact List.nodup_append.2 ⟨h, List.nodup_singleton data, by grind⟩

theorem eq_of_data? {table : TypeTable} (h : table.types.Nodup) (ha : table.data? a = some data)
    (hb : table.data? b = some data) : a = b := by
  have hi := (List.getElem?_inj (has_of_data? ha) h).1 (ha.trans hb.symm)
  cases a
  cases b
  cases hi
  rfl

def internAll (table : TypeTable) (calls : List TyData) : List TyId × TypeTable :=
  callAll intern table calls

theorem internAll_extends (table : TypeTable) (calls : List TyData) :
    table.Extends (table.internAll calls).2 := by
  induction calls generalizing table with
  | nil => exact .refl table
  | cons data calls ih => exact (intern_extends table data).trans (ih _)

theorem mem_types_internAll {table : TypeTable} {calls : List TyData} :
    d ∈ (table.internAll calls).2.types ↔ d ∈ table.types ∨ d ∈ calls := by
  induction calls generalizing table with
  | nil => exact ⟨.inl, fun h => h.elim id nofun⟩
  | cons data calls ih =>
    rw [List.mem_cons, ← or_assoc, ← mem_types_intern]
    exact ih

theorem nodup_internAll {table : TypeTable} (h : table.types.Nodup) (calls : List TyData) :
    (table.internAll calls).2.types.Nodup := by
  induction calls generalizing table with
  | nil => exact h
  | cons data calls ih => exact ih (nodup_intern h data)

theorem has_of_mem_internAll {table : TypeTable} (h : ty ∈ (table.internAll calls).1) :
    (table.internAll calls).2.Has ty := by
  induction calls generalizing table with
  | nil => cases h
  | cons data calls ih =>
    rcases List.mem_cons.1 h with rfl | h
    · exact (has_intern table data).mono (internAll_extends _ calls)
    · exact ih h

/-- After a run the id that a call returned has the data of the call. -/
theorem data?_internAll (table : TypeTable) {calls : List TyData} {k : Nat}
    (h : calls[k]? = some data) :
    ∃ ty, (table.internAll calls).1[k]? = some ty ∧
      (table.internAll calls).2.data? ty = some data := by
  induction calls generalizing table k with
  | nil => cases h
  | cons d calls ih =>
    cases k with
    | zero =>
      cases h
      have hlater := (internAll_extends (table.intern data).2 calls).data? (has_intern table data)
      exact ⟨(table.intern data).1, rfl, hlater.trans (data?_intern table data)⟩
    | succ k => exact ih _ h

theorem internAll_append (table : TypeTable) (xs ys : List TyData) :
    table.internAll (xs ++ ys) =
      ((table.internAll xs).1 ++ ((table.internAll xs).2.internAll ys).1,
        ((table.internAll xs).2.internAll ys).2) :=
  callAll_append intern table xs ys

theorem internAll_take (table : TypeTable) (calls : List TyData) (n : Nat) :
    (table.internAll (calls.take n)).1 <+: (table.internAll calls).1 := by
  have happend := table.internAll_append (calls.take n) (calls.drop n)
  rw [List.take_append_drop] at happend
  rw [happend]
  exact List.prefix_append _ _

theorem data?_internAll_take (table : TypeTable) {calls : List TyData} {k : Nat}
    (h : calls[k]? = some data) :
    ∃ ty, (table.internAll calls).1[k]? = some ty ∧
      ∀ n, k < n → (table.internAll (calls.take n)).2.data? ty = some data := by
  obtain ⟨ty, hty, -⟩ := data?_internAll table h
  refine ⟨ty, hty, ?_⟩
  intro n hn
  have htake : (calls.take n)[k]? = some data := by rw [List.getElem?_take_of_lt hn, h]
  obtain ⟨ty', hty', hd⟩ := data?_internAll table htake
  obtain ⟨hlt, he⟩ := List.getElem?_eq_some_iff.1 hty'
  have hids := List.prefix_iff_getElem?.1 (table.internAll_take calls n) k hlt
  rw [he, hty] at hids
  rwa [Option.some.inj hids]

/-- Two calls return the same id if and only if they have the same data. -/
theorem internAll_getElem?_eq_iff {table : TypeTable} (hn : table.types.Nodup)
    {calls : List TyData} {j k : Nat} (hj : calls[j]? = some d) (hk : calls[k]? = some e) :
    (table.internAll calls).1[j]? = (table.internAll calls).1[k]? ↔ d = e := by
  obtain ⟨a, ha, hda⟩ := data?_internAll table hj
  obtain ⟨b, hb, hdb⟩ := data?_internAll table hk
  rw [ha, hb, Option.some.injEq]
  constructor
  · rintro rfl
    exact Option.some.inj (hda.symm.trans hdb)
  · rintro rfl
    exact eq_of_data? (nodup_internAll hn calls) hda hdb

theorem size_internAll (calls : List TyData) :
    (empty.internAll calls).2.size = calls.toFinset.card := by
  have hmem : calls.toFinset = (empty.internAll calls).2.types.toFinset := by
    ext d
    rw [List.mem_toFinset, List.mem_toFinset, mem_types_internAll]
    exact (or_iff_right List.not_mem_nil).symm
  have hnodup : (empty.internAll calls).2.types.Nodup := nodup_internAll List.nodup_nil calls
  rw [hmem, List.toFinset_card_of_nodup hnodup]
  rfl

/-- Every component of the data is an id that an earlier call on a new table returned. -/
def Supplied (calls : List TyData) : Prop :=
  ∀ k (hk : k < calls.length), ∀ c ∈ calls[k].components, c ∈ (empty.internAll (calls.take k)).1

instance (calls : List TyData) : Decidable (Supplied calls) :=
  inferInstanceAs (Decidable (∀ k (hk : k < calls.length), ∀ c ∈ calls[k].components,
    c ∈ (empty.internAll (calls.take k)).1))

theorem Supplied.of_append (h : Supplied (xs ++ ys)) : Supplied xs := by
  intro k hk c hc
  have hk' : k < (xs ++ ys).length := by
    rw [List.length_append]
    omega
  have hcall := h k hk' c (by rwa [List.getElem_append_left hk])
  rwa [List.take_append_of_le_length hk.le] at hcall

theorem Supplied.last (h : Supplied (calls ++ [data])) :
    ∀ c ∈ data.components, c ∈ (empty.internAll calls).1 := by
  have hlast := h calls.length (by simp)
  simpa using hlast

theorem Supplied.valid (h : Supplied calls) : (empty.internAll calls).2.Valid := by
  induction calls using List.reverseRecOn with
  | nil => exact nofun
  | append_singleton calls data ih =>
    rw [internAll_append]
    exact (ih h.of_append).intern fun c hc => has_of_mem_internAll (h.last c hc)

end TypeTable

/-- Types with an index of their ids. -/
structure IndexedTable where
  types : List TyData
  ids : OrderedMap TyData TyId

namespace IndexedTable

def empty : IndexedTable :=
  ⟨[], ∅⟩

def intern (table : IndexedTable) (data : TyData) : TyId × IndexedTable :=
  match table.ids.get? data with
  | some ty => (ty, table)
  | none =>
    let ty : TyId := ⟨table.types.length⟩
    (ty, ⟨table.types ++ [data], table.ids.insert data ty⟩)

/-- The types are those of a table, and the index is their inverse. -/
structure Indexes (indexed : IndexedTable) (table : TypeTable) : Prop where
  types : indexed.types = table.types
  inverse : ∀ data ty, indexed.ids.get? data = some ty ↔ table.data? ty = some data

theorem indexes_empty : empty.Indexes .empty where
  types := rfl
  inverse := by
    intro data ty
    exact ⟨nofun, nofun⟩

theorem Indexes.add {indexed : IndexedTable} (h : indexed.Indexes table)
    (hnew : data ∉ table.types) :
    Indexes ⟨indexed.types ++ [data], indexed.ids.insert data ⟨indexed.types.length⟩⟩
      ⟨table.types ++ [data]⟩ where
  types := by rw [h.types]
  inverse := by
    have hfresh : ∀ d, table.data? ⟨table.types.length⟩ ≠ some d :=
      fun d hd => Nat.lt_irrefl _ (TypeTable.has_of_data? hd)
    have hother : ∀ ty, table.data? ty ≠ some data :=
      fun ty hty => hnew (TypeTable.mem_types_of_data? hty)
    intro d ty
    rw [OrderedMap.get?_insert, TypeTable.data?_concat, h.types]
    by_cases hd : d = data
    · subst hd
      rw [if_pos rfl, Option.some.injEq, eq_comm]
      by_cases hty : ty = ⟨table.types.length⟩
      · rw [if_pos hty]
        exact iff_of_true hty rfl
      · rw [if_neg hty]
        exact iff_of_false hty (hother ty)
    · rw [if_neg hd, h.inverse]
      by_cases hty : ty = ⟨table.types.length⟩
      · subst hty
        rw [if_pos rfl, Option.some.injEq]
        exact iff_of_false (hfresh d) (Ne.symm hd)
      · rw [if_neg hty]

theorem Indexes.intern {indexed : IndexedTable} (h : indexed.Indexes table) (data : TyData) :
    (indexed.intern data).1 = (table.intern data).1 ∧
      (indexed.intern data).2.Indexes (table.intern data).2 := by
  obtain ⟨ty, hd, he⟩ | ⟨hnew, he⟩ := table.intern_cases data
  · rw [he, IndexedTable.intern, (h.inverse data ty).2 hd]
    exact ⟨rfl, h⟩
  · have hmiss : indexed.ids.get? data = none := by
      rw [Option.eq_none_iff_forall_ne_some]
      intro ty hty
      exact hnew (TypeTable.mem_types_of_data? ((h.inverse data ty).1 hty))
    rw [he, IndexedTable.intern, hmiss]
    exact ⟨by rw [h.types], h.add hnew⟩

def internAll (table : IndexedTable) (calls : List TyData) : List TyId × IndexedTable :=
  callAll intern table calls

theorem Indexes.internAll {indexed : IndexedTable} (h : indexed.Indexes table)
    (calls : List TyData) :
    (indexed.internAll calls).1 = (table.internAll calls).1 ∧
      (indexed.internAll calls).2.Indexes (table.internAll calls).2 :=
  callAll_related (fun _ _ data h => h.intern data) h calls

end IndexedTable

namespace TypeTable

/-- In any run of calls on a new table an id keeps the data of its call, calls return the same id
if and only if they have the same data, and there are as many types as different data. Components
have smaller ids, so the text of every type is found. An index of the ids is the inverse of the
table and answers in the same way. -/
theorem internAll_bijective (calls : List TyData) (h : Supplied calls) :
    let ids := (empty.internAll calls).1
    let table := (empty.internAll calls).2
    let indexed := IndexedTable.empty.internAll calls
    (∀ (k : Nat) data, calls[k]? = some data → ∃ ty, ids[k]? = some ty ∧
      ∀ n, k < n → (empty.internAll (calls.take n)).2.data? ty = some data) ∧
    (∀ (j k : Nat) d e, calls[j]? = some d → calls[k]? = some e → (ids[j]? = ids[k]? ↔ d = e)) ∧
    table.size = calls.toFinset.card ∧
    (∀ ty data, table.data? ty = some data →
      (∀ c ∈ data.components, c.index < ty.index) ∧
      table.display ty = data.render table.display) ∧
    (∃ bound, ∀ fuel ≥ bound, ∀ ty, ty.index < table.size →
      Strict.display table fuel ty = some (table.display ty)) ∧
    indexed.1 = ids ∧ indexed.2.types = table.types ∧
    ∀ data ty, indexed.2.ids.get? data = some ty ↔ table.data? ty = some data := by
  intro ids table indexed
  have hvalid : table.Valid := h.valid
  obtain ⟨hids, hindexes⟩ := IndexedTable.indexes_empty.internAll calls
  refine ⟨fun k data => data?_internAll_take empty, ?_, size_internAll calls,
    fun ty data hd => ⟨hvalid ty data hd, hvalid.display_eq hd⟩, ?_, hids, hindexes.types,
    hindexes.inverse⟩
  · exact fun j k d e => internAll_getElem?_eq_iff List.nodup_nil
  · refine ⟨table.size, fun fuel hf ty hty => ?_⟩
    exact Strict.display_eq hvalid hty (Nat.lt_of_lt_of_le hty hf) (Nat.lt_succ_self _)

/-- Two types are interned twice, and the types are nested three levels deep. -/
def nested : List TyData :=
  [.prim (.int .int), .named ⟨⟨"color"⟩, "Kind"⟩, .pointer ⟨1⟩, .prim (.int .int),
    .signature [⟨0⟩, ⟨2⟩] [⟨1⟩], .slice ⟨3⟩, .pointer ⟨1⟩]

theorem internAll_bijective_nested :
    Supplied nested ∧
    (empty.internAll nested).1[2]? = (empty.internAll nested).1[6]? ∧
    (empty.internAll nested).2.size = 5 ∧
    ∃ fuel, Strict.display (empty.internAll nested).2 fuel ⟨4⟩ =
      some "[]func(int, *Kind) Kind" := by
  have hs : Supplied nested := by decide
  obtain ⟨-, hsame, hsize, -, ⟨bound, hshow⟩, -⟩ := internAll_bijective nested hs
  have hcard : nested.toFinset.card = 5 := by decide
  have htext : (empty.internAll nested).2.display ⟨4⟩ = "[]func(int, *Kind) Kind" := by decide
  refine ⟨hs, (hsame 2 6 _ _ rfl rfl).2 rfl, hsize.trans hcard, bound, ?_⟩
  rw [← htext]
  exact hshow bound (Nat.le_refl _) ⟨4⟩ (by decide)

end TypeTable

end SwitchCover

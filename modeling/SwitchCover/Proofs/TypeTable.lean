import SwitchCover.Type.Table

namespace SwitchCover.TypeTable

def Has (table : TypeTable) (ty : TyId) : Prop :=
  ty.index < table.types.length

def Extends (s t : TypeTable) : Prop :=
  s.types <+: t.types

/-- The components of every type stand before it. -/
def Valid (table : TypeTable) : Prop :=
  ∀ ty data, table.data? ty = some data → ∀ c ∈ data.components, c.index < ty.index

theorem Extends.refl (table : TypeTable) : table.Extends table :=
  List.prefix_refl table.types

theorem Extends.trans {s t u : TypeTable} (h : s.Extends t) (h' : t.Extends u) : s.Extends u :=
  List.IsPrefix.trans h h'

theorem Has.mono {s t : TypeTable} (h : s.Has ty) (he : s.Extends t) : t.Has ty :=
  Nat.lt_of_lt_of_le h he.length_le

theorem has_of_data? {table : TypeTable} (h : table.data? ty = some data) : table.Has ty :=
  (List.getElem?_eq_some_iff.1 h).1

/-- The data of an id never changes. -/
theorem Extends.data? {s t : TypeTable} (he : s.Extends t) (h : s.Has ty) :
    t.data? ty = s.data? ty := by
  obtain ⟨more, hm⟩ := he
  rw [TypeTable.data?, TypeTable.data?, ← hm, List.getElem?_append_left h]

theorem Extends.asNamed {s t : TypeTable} (he : s.Extends t) (h : s.Has ty) :
    t.asNamed ty = s.asNamed ty := by
  simp only [TypeTable.asNamed, he.data? h]

theorem Extends.asPrim {s t : TypeTable} (he : s.Extends t) (h : s.Has ty) :
    t.asPrim ty = s.asPrim ty := by
  simp only [TypeTable.asPrim, he.data? h]

theorem Valid.results {table : TypeTable} (h : table.Valid) (hr : table.results ty = some tys)
    (hc : c ∈ tys) : table.Has c := by
  simp only [TypeTable.results] at hr
  split at hr
  next params results hd =>
    cases hr
    have hlt := h ty _ hd c (List.mem_append_right _ hc)
    exact Nat.lt_trans hlt (has_of_data? hd)
  next => cases hr

/-- What a call may do: find the id of a known type, or add a new one at the end. -/
theorem intern_cases (table : TypeTable) (data : TyData) :
    (∃ ty, table.data? ty = some data ∧ table.intern data = (ty, table)) ∨
      data ∉ table.types ∧
        table.intern data = (⟨table.types.length⟩, ⟨table.types ++ [data]⟩) := by
  cases hi : table.types.idxOf? data with
  | some i =>
    obtain ⟨hlt, he, -⟩ := List.idxOf?_eq_some_iff.1 hi
    have hd : table.data? ⟨i⟩ = some data := List.getElem?_eq_some_iff.2 ⟨hlt, by simpa using he⟩
    exact .inl ⟨⟨i⟩, hd, by rw [intern, hi]⟩
  | none => exact .inr ⟨List.idxOf?_eq_none_iff.1 hi, by rw [intern, hi]⟩

theorem data?_concat (table : TypeTable) (data : TyData) (ty : TyId) :
    (⟨table.types ++ [data]⟩ : TypeTable).data? ty =
      if ty = ⟨table.types.length⟩ then some data else table.data? ty := by
  by_cases hty : ty = ⟨table.types.length⟩
  · subst hty
    simp [data?]
  · have hne : ty.index ≠ table.types.length := fun he => hty (by cases ty; cases he; rfl)
    rw [if_neg hty, data?, data?, List.getElem?_append]
    split
    · rfl
    next hge =>
      rw [List.getElem?_eq_none (by simp; omega), List.getElem?_eq_none (by omega)]

theorem intern_extends (table : TypeTable) (data : TyData) :
    table.Extends (table.intern data).2 := by
  obtain ⟨ty, -, he⟩ | ⟨-, he⟩ := table.intern_cases data
  · rw [he]
    exact .refl table
  · rw [he]
    exact List.prefix_append _ _

theorem data?_intern (table : TypeTable) (data : TyData) :
    (table.intern data).2.data? (table.intern data).1 = some data := by
  obtain ⟨ty, hd, he⟩ | ⟨-, he⟩ := table.intern_cases data
  · rw [he]
    exact hd
  · rw [he, data?_concat, if_pos rfl]

theorem has_intern (table : TypeTable) (data : TyData) :
    (table.intern data).2.Has (table.intern data).1 :=
  has_of_data? (data?_intern table data)

theorem Valid.intern {table : TypeTable} (h : table.Valid)
    (hc : ∀ c ∈ TyData.components data, table.Has c) : (table.intern data).2.Valid := by
  obtain ⟨ty, -, he⟩ | ⟨-, he⟩ := table.intern_cases data
  · rw [he]
    exact h
  · rw [he]
    intro ty d hd c hm
    rw [data?_concat] at hd
    split at hd
    next hty =>
      cases hd
      rw [hty]
      exact hc c hm
    next => exact h ty d hd c hm

end SwitchCover.TypeTable

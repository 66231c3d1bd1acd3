namespace SwitchCover

/-- A finite map whose entries stand in insertion order. -/
structure OrderedMap (κ : Type u) (β : Type v) where
  entries : List (κ × β)
  nodup : (entries.map Prod.fst).Nodup

namespace OrderedMap

variable {κ : Type u} {β : Type v} [DecidableEq κ]

def empty : OrderedMap κ β where
  entries := []
  nodup := List.nodup_nil

instance : EmptyCollection (OrderedMap κ β) := ⟨empty⟩

instance : Inhabited (OrderedMap κ β) := ⟨empty⟩

def keys (m : OrderedMap κ β) : List κ :=
  m.entries.map Prod.fst

def values (m : OrderedMap κ β) : List β :=
  m.entries.map Prod.snd

def size (m : OrderedMap κ β) : Nat :=
  m.entries.length

def isEmpty (m : OrderedMap κ β) : Bool :=
  m.entries.isEmpty

def find (k : κ) : List (κ × β) → Option β
  | [] => none
  | (k', v) :: es => if k = k' then some v else find k es

def get? (m : OrderedMap κ β) (k : κ) : Option β :=
  find k m.entries

def contains (m : OrderedMap κ β) (k : κ) : Bool :=
  (m.get? k).isSome

theorem find_eq_none_iff {k : κ} {es : List (κ × β)} :
    find k es = none ↔ k ∉ es.map Prod.fst := by
  induction es with
  | nil => simp [find]
  | cons e es ih =>
    by_cases h : k = e.1
    · simp [find, h]
    · simp [find, h, ih]

theorem mem_of_find {k : κ} {v : β} {es : List (κ × β)} (h : find k es = some v) :
    (k, v) ∈ es := by
  induction es with
  | nil => simp [find] at h
  | cons e es ih =>
    by_cases hk : k = e.1
    · simp only [find, hk, if_true, Option.some.injEq] at h
      subst h hk
      exact List.mem_cons_self
    · simp only [find, hk, if_false] at h
      exact List.mem_cons_of_mem _ (ih h)

theorem find_of_mem {k : κ} {v : β} {es : List (κ × β)} (hn : (es.map Prod.fst).Nodup)
    (h : (k, v) ∈ es) : find k es = some v := by
  induction es with
  | nil => simp at h
  | cons e es ih =>
    simp only [List.map_cons, List.nodup_cons] at hn
    rcases List.mem_cons.1 h with rfl | h
    · simp [find]
    · have hk : k ≠ e.1 := by
        rintro rfl
        exact hn.1 (List.mem_map.2 ⟨_, h, rfl⟩)
      simp [find, hk, ih hn.2 h]

theorem get?_eq_some_iff {m : OrderedMap κ β} {k : κ} {v : β} :
    m.get? k = some v ↔ (k, v) ∈ m.entries :=
  ⟨mem_of_find, find_of_mem m.nodup⟩

theorem get?_eq_none_iff {m : OrderedMap κ β} {k : κ} : m.get? k = none ↔ k ∉ m.keys :=
  find_eq_none_iff

def modify (m : OrderedMap κ β) (k : κ) (f : β → β) : OrderedMap κ β where
  entries := m.entries.map fun e => if e.1 = k then (e.1, f e.2) else e
  nodup := by
    have h : Prod.fst ∘ (fun e : κ × β => if e.1 = k then (e.1, f e.2) else e) = Prod.fst := by
      funext e
      by_cases h : e.1 = k <;> simp [h]
    rw [List.map_map, h]
    exact m.nodup

def append (m : OrderedMap κ β) (k : κ) (v : β) (h : k ∉ m.keys) : OrderedMap κ β where
  entries := m.entries ++ [(k, v)]
  nodup := by
    rw [List.map_append, List.nodup_append]
    refine ⟨m.nodup, by simp, ?_⟩
    intro a ha b hb hab
    simp only [List.map_cons, List.map_nil, List.mem_singleton] at hb
    subst hb hab
    exact h ha

/-- Stores `v` under `k`: in place if the key is known, at the end otherwise. -/
def insert (m : OrderedMap κ β) (k : κ) (v : β) : OrderedMap κ β :=
  if h : k ∈ m.keys then m.modify k fun _ => v else m.append k v h

/-- The map of a list of entries, inserted from left to right. -/
def ofList (es : List (κ × β)) : OrderedMap κ β :=
  es.foldl (fun m e => m.insert e.1 e.2) empty

@[simp] theorem get?_empty (k : κ) : (∅ : OrderedMap κ β).get? k = none := rfl

omit [DecidableEq κ] in
theorem eq_of_entries {m n : OrderedMap κ β} (h : m.entries = n.entries) : m = n := by
  cases m
  cases n
  cases h
  rfl

theorem mem_keys_of_get? {m : OrderedMap κ β} {k : κ} {v : β} (h : m.get? k = some v) :
    k ∈ m.keys :=
  List.mem_map_of_mem (get?_eq_some_iff.1 h)

theorem exists_get?_of_mem_keys {m : OrderedMap κ β} {k : κ} (h : k ∈ m.keys) :
    ∃ v, m.get? k = some v := by
  obtain ⟨⟨k', v⟩, he, rfl⟩ := List.mem_map.1 h
  exact ⟨v, get?_eq_some_iff.2 he⟩

theorem keys_modify (m : OrderedMap κ β) (k : κ) (f : β → β) : (m.modify k f).keys = m.keys := by
  have h : Prod.fst ∘ (fun e : κ × β => if e.1 = k then (e.1, f e.2) else e) = Prod.fst := by
    funext e
    by_cases h : e.1 = k <;> simp [h]
  simp only [keys, modify, List.map_map, h]

theorem keys_insert (m : OrderedMap κ β) (k : κ) (v : β) :
    (m.insert k v).keys = if k ∈ m.keys then m.keys else m.keys ++ [k] := by
  by_cases h : k ∈ m.keys
  · simp [insert, h, keys_modify]
  · rw [insert, dif_neg h, if_neg h]
    simp [append, keys]

theorem find_map (k : κ) (es : List (κ × β)) (k' : κ) (f : β → β) :
    find k (es.map fun e => if e.1 = k' then (e.1, f e.2) else e) =
      if k = k' then (find k es).map f else find k es := by
  induction es with
  | nil => simp [find]
  | cons e es ih =>
    by_cases h : k = e.1 <;> by_cases h' : e.1 = k' <;> by_cases hk : k = k' <;>
      simp_all [find]

theorem get?_modify (m : OrderedMap κ β) (k k' : κ) (f : β → β) :
    (m.modify k' f).get? k = if k = k' then (m.get? k).map f else m.get? k :=
  find_map k m.entries k' f

theorem get?_modify_eq_some {m : OrderedMap κ β} {k k' : κ} {f : β → β} {v : β}
    (h : (m.modify k' f).get? k = some v) :
    (k = k' ∧ ∃ w, m.get? k' = some w ∧ v = f w) ∨ (k ≠ k' ∧ m.get? k = some v) := by
  rw [get?_modify] at h
  split at h
  next hk =>
    obtain ⟨w, hw, rfl⟩ := Option.map_eq_some_iff.1 h
    exact .inl ⟨hk, w, hk ▸ hw, rfl⟩
  next hk => exact .inr ⟨hk, h⟩

theorem find_append (k : κ) (es es' : List (κ × β)) :
    find k (es ++ es') = (find k es).or (find k es') := by
  induction es with
  | nil => simp [find]
  | cons e es ih => by_cases h : k = e.1 <;> simp [find, h, ih]

theorem get?_append (m : OrderedMap κ β) (k k' : κ) (v : β) (h : k' ∉ m.keys) :
    (m.append k' v h).get? k = if k = k' then some v else m.get? k := by
  simp only [get?, append, find_append]
  by_cases hk : k = k'
  · subst hk
    rw [find_eq_none_iff.2 h]
    simp [find]
  · simp [find, hk]

theorem get?_insert (m : OrderedMap κ β) (k k' : κ) (v : β) :
    (m.insert k' v).get? k = if k = k' then some v else m.get? k := by
  by_cases h : k' ∈ m.keys
  · rw [insert, dif_pos h, get?_modify]
    by_cases hk : k = k'
    · subst hk
      obtain ⟨w, hw⟩ := Option.ne_none_iff_exists'.1 (fun hn => get?_eq_none_iff.1 hn h)
      simp [hw]
    · simp [hk]
  · rw [insert, dif_neg h, get?_append]

theorem mem_values_insert {m : OrderedMap κ β} {k : κ} {v w : β} (h : w ∈ (m.insert k v).values) :
    w = v ∨ w ∈ m.values := by
  obtain ⟨⟨k', w⟩, he, rfl⟩ := List.mem_map.1 h
  have hg := get?_eq_some_iff.2 he
  rw [get?_insert] at hg
  split at hg
  · exact .inl (Option.some.inj hg).symm
  · exact .inr (List.mem_map.2 ⟨_, get?_eq_some_iff.1 hg, rfl⟩)

theorem modify_modify (m : OrderedMap κ β) (k : κ) (f g : β → β) :
    (m.modify k f).modify k g = m.modify k (g ∘ f) := by
  apply eq_of_entries
  simp only [modify, List.map_map]
  congr 1
  funext e
  by_cases h : e.1 = k <;> simp [h]

theorem modify_eq_self {m : OrderedMap κ β} {k : κ} {f : β → β}
    (h : ∀ v, m.get? k = some v → f v = v) : m.modify k f = m := by
  have he : ∀ e ∈ m.entries, (if e.1 = k then (e.1, f e.2) else e) = e := by
    rintro ⟨k', v⟩ he
    by_cases hk : k' = k
    · subst hk
      simp [h v (get?_eq_some_iff.2 he)]
    · simp [hk]
  apply eq_of_entries
  exact (List.map_congr_left he).trans (List.map_id' _)

end OrderedMap

end SwitchCover

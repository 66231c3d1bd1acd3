import SwitchCover.Toml.Document

namespace SwitchCover.Toml

inductive Value.Distinct : Value → Prop where
  | string : Distinct (.string s)
  | integer : Distinct (.integer n)
  | float : Distinct (.float text)
  | boolean : Distinct (.boolean b)
  | dateTime : Distinct (.dateTime text)
  | array (h : ∀ v ∈ items, Distinct v) : Distinct (.array items)
  | inline (hk : (es.map Prod.fst).Nodup) (h : ∀ e ∈ es, Distinct e.2) : Distinct (.inline es)
  | table (hk : (es.map Prod.fst).Nodup) (h : ∀ e ∈ es, Distinct e.2) : Distinct (.table origin es)
  | tables (hk : ∀ es ∈ ts, (es.map Prod.fst).Nodup) (h : ∀ es ∈ ts, ∀ e ∈ es, Distinct e.2) :
    Distinct (.tables ts)

structure Entries.Distinct (es : Entries) : Prop where
  keys : (es.map Prod.fst).Nodup
  values : ∀ e ∈ es, e.2.Distinct

theorem Value.Distinct.entries (h : Value.Distinct v) (hv : v.asTable = some es) :
    Entries.Distinct es := by
  cases h with
  | inline hk h =>
    cases hv
    exact ⟨hk, h⟩
  | table hk h =>
    cases hv
    exact ⟨hk, h⟩
  | string => cases hv
  | integer => cases hv
  | float => cases hv
  | boolean => cases hv
  | dateTime => cases hv
  | array => cases hv
  | tables => cases hv

theorem Value.Distinct.items (h : (Value.tables ts).Distinct) : ∀ t ∈ ts, Entries.Distinct t := by
  cases h with
  | tables hk h => exact fun t ht => ⟨hk t ht, h t ht⟩

namespace Entries.Distinct

variable {es es' t : Entries} {k : String} {v : Value} {ts : List Entries}

theorem nil : Distinct [] :=
  ⟨List.nodup_nil, fun _ h => absurd h List.not_mem_nil⟩

theorem table (h : Distinct es) : (Value.table origin es).Distinct :=
  .table h.keys h.values

theorem inline (h : Distinct es) : (Value.inline es).Distinct :=
  .inline h.keys h.values

theorem tables_concat (h : ∀ t ∈ ts, Distinct t) (ht : Distinct t) :
    (Value.tables (ts ++ [t])).Distinct := by
  have hall : ∀ u ∈ ts ++ [t], Distinct u := by
    intro u hu
    rcases List.mem_append.1 hu with hu | hu
    · exact h u hu
    · rw [List.mem_singleton.1 hu]
      exact ht
  exact .tables (fun u hu => (hall u hu).keys) fun u hu => (hall u hu).values

theorem get? (h : Distinct es) (hg : es.get? k = some v) : v.Distinct := by
  obtain ⟨before, after, rfl, -⟩ := List.lookup_eq_some_iff.1 hg
  exact h.values (k, v) (by simp)

theorem append (h : Distinct es) (hk : k ∉ es.map Prod.fst) (hv : v.Distinct) :
    Distinct (es ++ [(k, v)]) := by
  constructor
  · rw [List.map_append, List.nodup_append]
    refine ⟨h.keys, by simp, ?_⟩
    rintro a ha b hb rfl
    cases List.mem_singleton.1 hb
    exact hk ha
  · intro e he
    rcases List.mem_append.1 he with he | he
    · exact h.values e he
    · cases List.mem_singleton.1 he
      exact hv

theorem append_new (h : Distinct es) (hg : es.get? k = none) (hv : v.Distinct) :
    Distinct (es ++ [(k, v)]) := by
  apply h.append _ hv
  intro hk
  obtain ⟨e, he, rfl⟩ := List.mem_map.1 hk
  simpa using List.lookup_eq_none_iff.1 hg e he

theorem set (h : Distinct es) (hv : v.Distinct) : Distinct (es.set k v) := by
  constructor
  · have hkeys : Prod.fst ∘ (fun e : String × Value => if e.1 = k then (k, v) else e) =
        Prod.fst := by
      funext e
      by_cases he : e.1 = k <;> simp [he]
    rw [Entries.set, List.map_map, hkeys]
    exact h.keys
  · intro e he
    obtain ⟨e', he', rfl⟩ := List.mem_map.1 he
    split
    · exact hv
    · exact h.values e' he'

theorem erase (h : Distinct es) : Distinct (es.erase k) :=
  ⟨(List.Sublist.map Prod.fst List.filter_sublist).nodup h.keys,
    fun e he => h.values e (List.mem_filter.1 he).1⟩

theorem add? (h : Distinct es) (hv : v.Distinct) (ha : es.add? k v = some es') : Distinct es' := by
  rw [Entries.add?] at ha
  split at ha
  next hg =>
    cases ha
    exact h.append_new hg hv
  next => cases ha

theorem setLast (h : Distinct es) (ht : Distinct t) (hg : es.get? k = some (.tables ts)) :
    Distinct (es.set k (.tables (ts.dropLast ++ [t]))) :=
  h.set (tables_concat (fun t ht => (h.get? hg).items t (List.dropLast_subset _ ht)) ht)

theorem last (h : Distinct es) (hg : es.get? k = some (.tables ts)) (ht : ts.getLast? = some t) :
    Distinct t :=
  (h.get? hg).items t (List.mem_of_getLast? ht)

theorem addDotted (h : Distinct es) (hv : v.Distinct)
    (ha : es.addDotted path k v = some es') : Distinct es' := by
  fun_induction Entries.addDotted path k v es generalizing es' with
  | case1 => exact h.add? hv ha
  | case2 k v part path es hg ih =>
    obtain ⟨t, ht, rfl⟩ := Option.map_eq_some_iff.1 ha
    exact h.append_new hg (ih .nil hv ht).table
  | case3 => cases ha
  | case4 k v part path es origin t hg hc ih =>
    obtain ⟨t', ht', rfl⟩ := Option.map_eq_some_iff.1 ha
    exact h.set (ih ((h.get? hg).entries rfl) hv ht').table
  | case5 => cases ha
  | case6 k v part path es ts hg t ht hp ih =>
    obtain ⟨t', ht', rfl⟩ := Option.map_eq_some_iff.1 ha
    exact h.setLast (ih (h.last hg ht) hv ht') hg
  | case7 => cases ha
  | case8 => cases ha

theorem updateAt {f : Entries → Option Entries} (h : Distinct es)
    (hf : ∀ es es', Distinct es → f es = some es' → Distinct es')
    (hu : es.updateAt f path = some es') : Distinct es' := by
  fun_induction Entries.updateAt f path es generalizing es' with
  | case1 => exact hf _ _ h hu
  | case2 part path es hg ih =>
    obtain ⟨t, ht, rfl⟩ := Option.map_eq_some_iff.1 hu
    exact h.append_new hg (ih .nil ht).table
  | case3 part path es origin t hg ih =>
    obtain ⟨t', ht', rfl⟩ := Option.map_eq_some_iff.1 hu
    exact h.set (ih ((h.get? hg).entries rfl) ht').table
  | case4 part path es ts hg t ht ih =>
    obtain ⟨t', ht', rfl⟩ := Option.map_eq_some_iff.1 hu
    exact h.setLast (ih (h.last hg ht) ht') hg
  | case5 => cases hu
  | case6 => cases hu

theorem openTable (h : Distinct es) (ho : es.openTable k = some es') : Distinct es' := by
  rw [Entries.openTable] at ho
  split at ho
  next hg =>
    cases ho
    exact h.append_new hg nil.table
  next t hg =>
    cases ho
    apply h.erase.append _ ((h.get? hg).entries rfl).table
    simp [Entries.erase]
  next => cases ho

theorem openElement (h : Distinct es) (ho : es.openElement k = some es') : Distinct es' := by
  rw [Entries.openElement] at ho
  split at ho
  next hg =>
    cases ho
    have hone : (Value.tables ([] ++ [[]])).Distinct :=
      tables_concat (fun _ ht => absurd ht List.not_mem_nil) nil
    exact h.append_new hg hone
  next ts hg =>
    cases ho
    exact h.set (tables_concat (h.get? hg).items nil)
  next => cases ho

theorem collect (h : Distinct es) (hp : ∀ p ∈ pairs, p.2.Distinct)
    (hc : collect es pairs = some es') : Distinct es' := by
  fun_induction Toml.collect es pairs with
  | case1 =>
    cases hc
    exact h
  | case2 es path k v rest es₁ ha ih =>
    obtain ⟨hv, hrest⟩ := List.forall_mem_cons.1 hp
    exact ih (h.addDotted hv ha) hrest hc
  | case3 => cases hc

end Entries.Distinct

theorem Value.Distinct.get? (h : Value.Distinct v) (hg : v.get? k = some w) : w.Distinct := by
  unfold Value.get? at hg
  split at hg
  next es ht => exact (h.entries ht).get? hg
  next => cases hg

namespace Reader

/-- Whatever a reader returns has a property. -/
def Yields (p : Reader α) (P : α → Prop) : Prop :=
  ∀ cs a rest, StateT.run p cs = some (a, rest) → P a

namespace Yields

variable {p q : Reader α} {f : α → Reader β} {P : α → Prop} {Q : β → Prop}

theorem pure (h : P a) : Yields (Pure.pure a) P := by
  rintro cs b rest he
  cases he
  exact h

theorem failure : Yields (Alternative.failure : Reader α) P := by
  rintro cs a rest he
  cases he

theorem bind (hp : Yields p P) (hf : ∀ a, P a → Yields (f a) Q) : Yields (p >>= f) Q := by
  intro cs b rest he
  obtain ⟨⟨a, mid⟩, ha, hb⟩ := Option.bind_eq_some_iff.1 he
  exact hf a (hp cs a mid ha) mid b rest hb

theorem after (hf : ∀ a, Yields (f a) Q) : Yields (p >>= f) Q :=
  bind (P := fun _ => True) (fun _ _ _ _ => trivial) fun a _ => hf a

theorem map {g : α → β} (hp : Yields p P) (hg : ∀ a, P a → Q (g a)) : Yields (g <$> p) Q :=
  bind hp fun a ha => pure (hg a ha)

theorem orElse (hp : Yields p P) (hq : Yields q P) : Yields (p <|> q) P := by
  intro cs a rest he
  have he : (StateT.run p cs).orElse (fun _ => StateT.run q cs) = some (a, rest) := he
  cases hr : StateT.run p cs with
  | none =>
    rw [hr] at he
    exact hq cs a rest he
  | some r =>
    rw [hr] at he
    exact hp cs a rest (hr.trans he)

theorem maybe (hp : Yields p P) : Yields (maybe p) fun o => ∀ a ∈ o, P a :=
  orElse (map hp fun a ha b hb => Option.some.inj hb ▸ ha) (pure fun a ha => by cases ha)

theorem manyWithin (hp : Yields p P) (n : Nat) :
    Yields (manyWithin p n) fun as => ∀ a ∈ as, P a := by
  induction n with
  | zero => exact pure fun a ha => absurd ha List.not_mem_nil
  | succ n ih =>
    refine bind hp.maybe fun o ho => ?_
    cases o with
    | none => exact pure fun a ha => absurd ha List.not_mem_nil
    | some a =>
      exact bind ih fun as has => pure (List.forall_mem_cons.2 ⟨ho a rfl, has⟩)

theorem many (hp : Yields p P) : Yields (many p) fun as => ∀ a ∈ as, P a :=
  after fun cs => hp.manyWithin cs.length

theorem array {value : Reader Value} (h : Yields value Value.Distinct) :
    Yields (array value) fun items => ∀ v ∈ items, Value.Distinct v := by
  have hitem : Yields (array.item value) Value.Distinct :=
    after fun _ => bind h fun v hv => after fun _ => pure hv
  refine after fun _ => bind (P := fun items => ∀ v ∈ items, Value.Distinct v) (orElse ?_ ?_) ?_
  · exact bind hitem fun v hv => bind (many (after fun _ => hitem)) fun vs hvs =>
      after fun _ => pure (List.forall_mem_cons.2 ⟨hv, hvs⟩)
  · exact pure fun v hv => absurd hv List.not_mem_nil
  · exact fun items hi => after fun _ => after fun _ => pure hi

theorem keyValue {value : Reader Value} (h : Yields value Value.Distinct) :
    Yields (keyValue value) fun pair => pair.2.Distinct :=
  after fun _ => after fun _ => after fun _ => bind h fun _ hv => pure hv

theorem inlineTable {value : Reader Value} (h : Yields value Value.Distinct) :
    Yields (inlineTable value) Entries.Distinct := by
  have hitem : Yields (inlineTable.item value) fun pair => pair.2.Distinct :=
    bind h.keyValue fun pair hp => after fun _ => pure hp
  refine after fun _ =>
    bind (P := fun pairs => ∀ pair ∈ pairs, Value.Distinct pair.2) (orElse ?_ ?_) ?_
  · exact bind hitem fun v hv => bind (many (after fun _ => hitem)) fun vs hvs =>
      pure (List.forall_mem_cons.2 ⟨hv, hvs⟩)
  · exact pure fun v hv => absurd hv List.not_mem_nil
  · refine fun pairs hp => after fun _ => after fun _ => ?_
    split
    next es he => exact pure (Entries.Distinct.nil.collect hp he)
    next => exact failure

theorem scalarValue : Yields scalarValue Value.Distinct := by
  have any {α : Type} (p : Reader α) : Yields p fun _ => True := fun _ _ _ _ => trivial
  refine orElse (map (any _) fun _ _ => .string) (orElse (map (any _) fun _ _ => .boolean) ?_)
  exact orElse (map (any _) fun _ _ => .dateTime)
    (orElse (map (any _) fun _ _ => .float) (map (any _) fun _ _ => .integer))

theorem value (depth : Nat) : Yields (value depth) Value.Distinct := by
  induction depth with
  | zero => exact scalarValue
  | succ depth ih =>
    exact orElse scalarValue (orElse (map ih.array fun _ hi => .array hi)
      (map ih.inlineTable fun _ he => he.inline))

end Yields

end Reader

def Line.Distinct : Line → Prop
  | .keyValue _ _ v => v.Distinct
  | _ => True

open Reader in
theorem yields_header : Yields header Line.Distinct := by
  refine .after fun _ => .after fun o => ?_
  cases o with
  | none => exact .after fun k => .after fun _ => .after fun _ => .pure trivial
  | some _ => exact .after fun k => .after fun _ => .after fun _ => .pure trivial

open Reader in
theorem yields_line : Yields line Line.Distinct := by
  refine .after fun _ => .after fun o => ?_
  split
  · exact .after fun _ => .after fun _ => .pure trivial
  · exact yields_header
  · exact .after fun _ => .pure trivial
  · exact .after fun _ => .pure trivial
  · exact .bind (Yields.value maxDepth).keyValue fun pair hp => .after fun _ => .pure hp
  · exact .failure

open Reader in
theorem yields_lines : Yields lines fun ls => ∀ l ∈ ls, Line.Distinct l :=
  .bind yields_line.many fun _ hl => .after fun _ => .after fun _ => .pure hl

theorem Entries.Distinct.assemble (h : Entries.Distinct root) (hl : ∀ l ∈ ls, Line.Distinct l)
    (ha : assemble root opened ls = some es) : Entries.Distinct es := by
  fun_induction Toml.assemble root opened ls with
  | case1 =>
    cases ha
    exact h
  | case2 root opened rest ih => exact ih h (List.forall_mem_cons.1 hl).2 ha
  | case3 root opened path k v rest root' hu ih =>
    obtain ⟨hv, hrest⟩ := List.forall_mem_cons.1 hl
    exact ih (h.updateAt (fun es es' he => he.addDotted hv) hu) hrest ha
  | case4 => cases ha
  | case5 root opened path k rest root' hu ih =>
    exact ih (h.updateAt (fun es es' he => he.openTable) hu) (List.forall_mem_cons.1 hl).2 ha
  | case6 => cases ha
  | case7 root opened path k rest root' hu ih =>
    exact ih (h.updateAt (fun es es' he => he.openElement) hu) (List.forall_mem_cons.1 hl).2 ha
  | case8 => cases ha

namespace Value

theorem distinct_toDateTime? {v w : Value} (h : v.toDateTime? = some w) : w.Distinct := by
  cases v with
  | string text =>
    rw [toDateTime?] at h
    split at h
    · cases h
      exact .dateTime
    · cases h
  | _ => cases h

/-- Replacing date-times gives values with distinct keys only. -/
def ResolvesDistinct (v : Value) : Prop :=
  ∀ w, v.resolve? = some w → w.Distinct

theorem distinct_resolveItems? (hi : ∀ v ∈ items, ResolvesDistinct v)
    (h : resolveItems? items = some vs) : ∀ v ∈ vs, Distinct v := by
  induction items generalizing vs with
  | nil =>
    cases h
    exact fun v hv => absurd hv List.not_mem_nil
  | cons v items ih =>
    obtain ⟨hv, hitems⟩ := List.forall_mem_cons.1 hi
    obtain ⟨w, hw, h⟩ := Option.bind_eq_some_iff.1 h
    obtain ⟨ws, hws, h⟩ := Option.bind_eq_some_iff.1 h
    cases h
    exact List.forall_mem_cons.2 ⟨hv w hw, ih hitems hws⟩

theorem keys_resolveEntries? (h : resolveEntries? es = some es') :
    es'.map Prod.fst = es.map Prod.fst := by
  induction es generalizing es' with
  | nil =>
    cases h
    rfl
  | cons e es ih =>
    obtain ⟨w, hw, h⟩ := Option.bind_eq_some_iff.1 h
    obtain ⟨ws, hws, h⟩ := Option.bind_eq_some_iff.1 h
    cases h
    rw [List.map_cons, List.map_cons, ih hws]

theorem distinct_resolveEntries? (hk : (es.map Prod.fst).Nodup)
    (he : ∀ e ∈ es, ResolvesDistinct e.2) (h : resolveEntries? es = some es') :
    Entries.Distinct es' := by
  refine ⟨by rwa [keys_resolveEntries? h], ?_⟩
  clear hk
  induction es generalizing es' with
  | nil =>
    cases h
    exact Entries.Distinct.nil.values
  | cons e es ih =>
    obtain ⟨hv, hes⟩ := List.forall_mem_cons.1 he
    obtain ⟨w, hw, h⟩ := Option.bind_eq_some_iff.1 h
    obtain ⟨ws, hws, h⟩ := Option.bind_eq_some_iff.1 h
    cases h
    exact List.forall_mem_cons.2 ⟨hv w hw, ih hes hws⟩

theorem distinct_resolveTables? (hk : ∀ es ∈ ts, (es.map Prod.fst).Nodup)
    (he : ∀ es ∈ ts, ∀ e ∈ es, ResolvesDistinct e.2) (h : resolveTables? ts = some vs) :
    ∀ v ∈ vs, Distinct v := by
  induction ts generalizing vs with
  | nil =>
    cases h
    exact fun v hv => absurd hv List.not_mem_nil
  | cons es ts ih =>
    obtain ⟨hkes, hkts⟩ := List.forall_mem_cons.1 hk
    obtain ⟨hes, hts⟩ := List.forall_mem_cons.1 he
    rw [resolveTables?] at h
    split at h
    · obtain ⟨w, hw, h⟩ := Option.bind_eq_some_iff.1 h
      obtain ⟨ws, hws, h⟩ := Option.bind_eq_some_iff.1 h
      cases h
      exact List.forall_mem_cons.2 ⟨distinct_toDateTime? hw, ih hkts hts hws⟩
    · obtain ⟨w, hw, h⟩ := Option.bind_eq_some_iff.1 h
      obtain ⟨es', hes', rfl⟩ := Option.map_eq_some_iff.1 hw
      obtain ⟨ws, hws, h⟩ := Option.bind_eq_some_iff.1 h
      cases h
      exact List.forall_mem_cons.2
        ⟨(distinct_resolveEntries? hkes hes hes').table, ih hkts hts hws⟩

/-- Date-times in place of tables leave the keys of all others distinct. -/
theorem Distinct.resolve? {v : Value} (h : v.Distinct) : ResolvesDistinct v := by
  induction h with
  | string =>
    rintro w ⟨⟩
    exact .string
  | integer =>
    rintro w ⟨⟩
    exact .integer
  | float =>
    rintro w ⟨⟩
    exact .float
  | boolean =>
    rintro w ⟨⟩
    exact .boolean
  | dateTime =>
    rintro w ⟨⟩
    exact .dateTime
  | array _ ih =>
    intro w hw
    obtain ⟨vs, hvs, rfl⟩ := Option.map_eq_some_iff.1 hw
    exact .array (distinct_resolveItems? ih hvs)
  | inline hk _ ih =>
    intro w hw
    rw [Value.resolve?] at hw
    split at hw
    · exact distinct_toDateTime? hw
    · obtain ⟨es', hes', rfl⟩ := Option.map_eq_some_iff.1 hw
      exact (distinct_resolveEntries? hk ih hes').inline
  | table hk _ ih =>
    intro w hw
    rw [Value.resolve?] at hw
    split at hw
    · exact distinct_toDateTime? hw
    · obtain ⟨es', hes', rfl⟩ := Option.map_eq_some_iff.1 hw
      exact (distinct_resolveEntries? hk ih hes').table
  | tables hk _ ih =>
    intro w hw
    obtain ⟨vs, hvs, rfl⟩ := Option.map_eq_some_iff.1 hw
    exact .array (distinct_resolveTables? hk ih hvs)

end Value

/-- A document that is read has distinct keys throughout. -/
theorem distinct_parse? (h : parse? text = some doc) : doc.Distinct := by
  rw [parse?] at h
  split at h
  next ls rest hls =>
    split at h
    next root hroot =>
      have hlines := yields_lines _ ls rest hls
      exact (Entries.Distinct.nil.assemble hlines hroot).table.resolve? doc h
    next => cases h
  next => cases h

end SwitchCover.Toml

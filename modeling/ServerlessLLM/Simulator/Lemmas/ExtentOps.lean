import ServerlessLLM.Simulator.Segment

/-!
# Lists of extents

What the operations on lists of extents keep: the addresses, the allocated extents, and that no two free extents stand side by
side.
-/

namespace ServerlessLLM.Simulator.Extent

open List Dict Tiling

variable {a b limit : Nat} {l : List Extent}

/-- Not both are free. -/
def Apart (x y : Extent) : Prop := ¬(x.key = none ∧ y.key = none)

instance : DecidableRel Apart := fun x y => inferInstanceAs (Decidable ¬(x.key = none ∧ y.key = none))

/-- The extents of a pool: they stand behind each other, and have keys and names of their own. -/
structure Layout (capacity nextId : Nat) (l : List Extent) : Prop where
  adjoins : Adjoins offset size 0 l capacity
  keys : (l.filterMap key).Nodup
  ids : (l.map id).Nodup
  fresh : ∀ e ∈ l, e.id < nextId

/-! ## Allocated extents -/

@[simp] theorem allocated_nil : allocated [] = [] := rfl

theorem allocated_cons_free {e : Extent} (h : e.key = none) (l : List Extent) : allocated (e :: l) = allocated l := by
  simp [allocated, h]

theorem allocated_cons_key {e : Extent} {key : Key} (h : e.key = some key) (l : List Extent) :
    allocated (e :: l) = e :: allocated l := by
  simp [allocated, h]

@[simp] theorem allocated_append (l l' : List Extent) : allocated (l ++ l') = allocated l ++ allocated l' := by
  simp [allocated]

theorem mem_allocated {e : Extent} : e ∈ allocated l ↔ e ∈ l ∧ e.key.isSome := by simp [allocated]

theorem mem_allocated_of_key {e : Extent} {key : Key} (he : e ∈ l) (hk : e.key = some key) : e ∈ allocated l :=
  mem_allocated.2 ⟨he, by simp [hk]⟩

theorem allocated_of_keys (h : ∀ e ∈ l, e.key.isSome) : allocated l = l := filter_eq_self.2 h

theorem filterMap_key_allocated (l : List Extent) : (allocated l).filterMap key = l.filterMap key := by
  induction l with
  | nil => rfl
  | cons e l ih =>
    cases hk : e.key with
    | none => rw [allocated_cons_free hk, ih, filterMap_cons_none hk]
    | some key => rw [allocated_cons_key hk, filterMap_cons_some hk, ih, filterMap_cons_some hk]

theorem mem_keys {key : Key} : key ∈ l.filterMap Extent.key ↔ ∃ e ∈ l, e.key = some key := mem_filterMap

variable {x : Extent} {capacity nextId : Nat} (cursor : Nat)

theorem eq_of_key {l : List Extent} (h : (l.filterMap key).Nodup) {y : Extent} {key : Key} (hx : x ∈ l) (hy : y ∈ l)
    (hxk : x.key = some key) (hyk : y.key = some key) : x = y := by
  induction l with
  | nil => cases hx
  | cons e l ih =>
    cases hk : e.key with
    | none =>
      rw [filterMap_cons_none hk] at h
      have hxl : x ∈ l := (mem_cons.1 hx).resolve_left (by rintro rfl; rw [hk] at hxk; cases hxk)
      have hyl : y ∈ l := (mem_cons.1 hy).resolve_left (by rintro rfl; rw [hk] at hyk; cases hyk)
      exact ih h hxl hyl
    | some k =>
      rw [filterMap_cons_some hk, nodup_cons] at h
      have hne : ∀ z ∈ l, z.key = some key → k ≠ key := by
        intro z hz hzk heq
        exact h.1 (mem_keys.2 ⟨z, hz, by rw [hzk, heq]⟩)
      rcases mem_cons.1 hx with rfl | hxl
      · rcases mem_cons.1 hy with rfl | hyl
        · rfl
        · exact absurd (Option.some.inj (hk.symm.trans hxk)) (hne y hyl hyk)
      · rcases mem_cons.1 hy with rfl | hyl
        · exact absurd (Option.some.inj (hk.symm.trans hyk)) (hne x hxl hxk)
        · exact ih h.2 hxl hyl

theorem get?_byKey (h : (l.filterMap key).Nodup) {key : Key} {e : Extent} :
    (byKey l).get? key = some e ↔ e ∈ l ∧ e.key = some key := by
  have hfst : (l.filterMap fun e => e.key.map fun key => (key, e)).map Prod.fst = l.filterMap Extent.key := by
    rw [map_filterMap]
    congr
    funext e
    cases e.key <;> rfl
  have hmem : ∀ {key e}, (key, e) ∈ (l.filterMap fun e => e.key.map fun key => (key, e)) ↔ e ∈ l ∧ e.key = some key := by
    intro key e
    rw [mem_filterMap]
    constructor
    · rintro ⟨x, hx, hmap⟩
      obtain ⟨k, hk, heq⟩ := Option.map_eq_some_iff.1 hmap
      obtain ⟨rfl, rfl⟩ := Prod.mk.inj heq
      exact ⟨hx, hk⟩
    · rintro ⟨he, hk⟩
      exact ⟨e, he, by simp [hk]⟩
  constructor
  · intro hget
    have hkey : key ∈ (byKey l).keys := mem_keys_iff.2 ⟨e, hget⟩
    rw [byKey, mem_keys_foldl_set, hfst, mem_keys] at hkey
    obtain ⟨x, hx, hk⟩ := hkey.resolve_right (by simp [Dict.keys])
    rw [byKey, get?_foldl_set (by rw [hfst]; exact h) (hmem.2 ⟨hx, hk⟩)] at hget
    exact Option.some.inj hget ▸ ⟨hx, hk⟩
  · intro he
    rw [byKey, get?_foldl_set (by rw [hfst]; exact h) (hmem.2 he)]

/-! ## Coalescing -/

theorem allocated_coalesceFrom (e : Extent) (l : List Extent) : allocated (coalesceFrom e l) = allocated (e :: l) := by
  induction l generalizing e with
  | nil => rfl
  | cons x l ih =>
    rw [coalesceFrom]
    split
    · rename_i h
      rw [ih, allocated_cons_free (e := { e with size := e.size + x.size }) h.1, allocated_cons_free h.1,
        allocated_cons_free h.2]
    · cases hk : e.key with
      | none => rw [allocated_cons_free hk, allocated_cons_free hk, ih]
      | some key => rw [allocated_cons_key hk, allocated_cons_key hk, ih]

@[simp] theorem allocated_coalesce (l : List Extent) : allocated (coalesce l) = allocated l := by
  cases l with
  | nil => rfl
  | cons e l => exact allocated_coalesceFrom e l

theorem adjoins_coalesceFrom {e : Extent} (h : Tiling.Adjoins offset size a (e :: l) b) :
    Adjoins offset size a (coalesceFrom e l) b := by
  induction l generalizing e a with
  | nil => exact h
  | cons x l ih =>
    obtain ⟨h1, h2, h3⟩ := h
    rw [coalesceFrom]
    split
    · refine ih ⟨h1, ?_⟩
      rw [Nat.add_assoc] at h3
      exact h3
    · exact ⟨h1, ih ⟨h2, h3⟩⟩

theorem adjoins_coalesce (h : Tiling.Adjoins offset size a l b) : Tiling.Adjoins offset size a (coalesce l) b := by
  cases l with
  | nil => exact h
  | cons e l => exact adjoins_coalesceFrom h

theorem head_coalesceFrom (e : Extent) (l : List Extent) : ∃ x l', coalesceFrom e l = x :: l' ∧ x.key = e.key := by
  induction l generalizing e with
  | nil => exact ⟨e, [], rfl, rfl⟩
  | cons y l ih =>
    rw [coalesceFrom]
    split
    · obtain ⟨x, l', heq, hk⟩ := ih { e with size := e.size + y.size }
      exact ⟨x, l', heq, hk⟩
    · exact ⟨e, _, rfl, rfl⟩

theorem isChain_coalesceFrom (e : Extent) (l : List Extent) : (coalesceFrom e l).IsChain Apart := by
  induction l generalizing e with
  | nil => exact isChain_singleton e
  | cons y l ih =>
    rw [coalesceFrom]
    split
    · exact ih _
    · rename_i h
      obtain ⟨x, l', heq, hk⟩ := head_coalesceFrom y l
      have hx := ih y
      rw [heq] at hx ⊢
      refine isChain_cons_cons.2 ⟨?_, hx⟩
      intro hxy
      exact h ⟨hxy.1, hk ▸ hxy.2⟩

theorem isChain_coalesce (l : List Extent) : (coalesce l).IsChain Apart := by
  cases l with
  | nil => exact isChain_nil
  | cons e l => exact isChain_coalesceFrom e l

theorem ids_coalesceFrom (e : Extent) (l : List Extent) : ((coalesceFrom e l).map id).Sublist ((e :: l).map id) := by
  induction l generalizing e with
  | nil => exact List.Sublist.refl _
  | cons y l ih =>
    rw [coalesceFrom]
    split
    · exact (ih _).trans (List.Sublist.cons_cons _ (sublist_cons_self _ _))
    · exact List.Sublist.cons_cons _ (ih y)

theorem ids_coalesce (l : List Extent) : ((coalesce l).map id).Sublist (l.map id) := by
  cases l with
  | nil => exact List.Sublist.refl _
  | cons e l => exact ids_coalesceFrom e l

theorem size_coalesceFrom {Q : Nat → Prop} (hadd : ∀ a b, Q a → Q b → Q (a + b)) {e : Extent} (h : ∀ x ∈ e :: l, Q x.size) :
    ∀ x ∈ coalesceFrom e l, Q x.size := by
  induction l generalizing e with
  | nil => exact h
  | cons y l ih =>
    have he := h e (by simp)
    rw [coalesceFrom]
    split
    · refine ih ?_
      intro x hx
      rcases mem_cons.1 hx with rfl | hx
      · exact hadd _ _ he (h y (by simp))
      · exact h x (by simp [hx])
    · intro x hx
      rcases mem_cons.1 hx with rfl | hx
      · exact he
      · exact ih (fun z hz => h z (mem_cons_of_mem _ hz)) x hx

/-- The sizes are multiples of a number. -/
def Multiples (d : Nat) (l : List Extent) : Prop := ∀ e ∈ l, d ∣ e.size

theorem size_coalesce {Q : Nat → Prop} (hadd : ∀ a b, Q a → Q b → Q (a + b)) (h : ∀ x ∈ l, Q x.size) :
    ∀ x ∈ coalesce l, Q x.size := by
  cases l with
  | nil => exact h
  | cons e l => exact size_coalesceFrom hadd h

theorem Layout.coalesce (h : Layout capacity nextId l) : Layout capacity nextId (coalesce l) where
  adjoins := adjoins_coalesce h.adjoins
  keys := by
    rw [← filterMap_key_allocated, allocated_coalesce, filterMap_key_allocated]
    exact h.keys
  ids := h.ids.sublist (ids_coalesce l)
  fresh := by
    intro e he
    obtain ⟨x, hx, hid⟩ := mem_map.1 ((ids_coalesce l).subset (mem_map_of_mem he))
    exact hid ▸ h.fresh x hx

/-! ## Freeing -/

theorem allocated_clearKey (id : Nat) (l : List Extent) :
    allocated (clearKey id l) = (allocated l).filter fun e => e.id ≠ id := by
  induction l with
  | nil => rfl
  | cons e l ih =>
    have hcons : clearKey id (e :: l) = (if e.id = id then { e with key := none } else e) :: clearKey id l := rfl
    rw [hcons]
    by_cases hid : e.id = id
    · rw [if_pos hid, allocated_cons_free rfl, ih]
      cases hk : e.key with
      | none => rw [allocated_cons_free hk]
      | some key => rw [allocated_cons_key hk, filter_cons_of_neg (by simp [hid])]
    · rw [if_neg hid]
      cases hk : e.key with
      | none => rw [allocated_cons_free hk, allocated_cons_free hk, ih]
      | some key => rw [allocated_cons_key hk, allocated_cons_key hk, filter_cons_of_pos (by simp [hid]), ih]

theorem map_clearKey {γ : Type} (f : Extent → γ) (hf : ∀ e, f { e with key := none } = f e) (id : Nat) (l : List Extent) :
    (clearKey id l).map f = l.map f := by
  rw [clearKey, map_map]
  refine map_congr_left ?_
  intro e _
  rw [Function.comp_apply]
  split
  · exact hf e
  · rfl

theorem mem_clearKey {id : Nat} {e : Extent} (h : e ∈ clearKey id l) : ∃ x ∈ l, e.id = x.id ∧ e.offset = x.offset ∧
    e.size = x.size := by
  obtain ⟨x, hx, rfl⟩ := mem_map.1 h
  refine ⟨x, hx, ?_⟩
  split <;> exact ⟨rfl, rfl, rfl⟩

theorem Layout.clearKey (h : Layout capacity nextId l) (id : Nat) : Layout capacity nextId (clearKey id l) where
  adjoins := h.adjoins.of_map_eq (map_clearKey _ (fun _ => rfl) id l).symm
  keys := by
    rw [← filterMap_key_allocated, allocated_clearKey]
    refine List.Nodup.sublist (List.Sublist.filterMap key filter_sublist) ?_
    rw [filterMap_key_allocated]
    exact h.keys
  ids := by
    rw [map_clearKey _ fun _ => rfl]
    exact h.ids
  fresh := by
    intro e he
    obtain ⟨x, hx, hid, -⟩ := mem_clearKey he
    exact hid ▸ h.fresh x hx

theorem filter_id_eq_filter_key (hks : (l.filterMap key).Nodup) (hids : (l.map id).Nodup) {key : Key}
    (hx : x ∈ l) (hk : x.key = some key) :
    ((allocated l).filter fun e => e.id ≠ x.id) = (allocated l).filter fun e => e.key ≠ some key := by
  refine filter_congr ?_
  intro e he
  have hel := (mem_allocated.1 he).1
  rw [decide_eq_decide, not_iff_not]
  constructor
  · intro hid
    rw [inj_on_of_nodup_map hids hel hx hid]
    exact hk
  · intro hek
    rw [eq_of_key hks hel hx hek hk]

/-! ## Free bytes below a limit -/

theorem freeBelow_cons (e : Extent) (l : List Extent) :
    freeBelow limit (e :: l) = if e.key = none ∧ e.offset < limit then e :: freeBelow limit l else freeBelow limit l := by
  simp [freeBelow, filter_cons]

theorem room_add_allocated (h : Tiling.Adjoins offset size a l b) (hin : ∀ e ∈ allocated l, e.offset + e.size ≤ limit) :
    total (room limit) (freeBelow limit l) + total size (allocated l) + min a limit = min b limit := by
  induction l generalizing a with
  | nil => simp [freeBelow, show a = b from h]
  | cons e l ih =>
    obtain ⟨h1, h2⟩ := h
    rw [freeBelow_cons]
    cases hk : e.key with
    | none =>
      rw [allocated_cons_free hk] at hin ⊢
      have := ih h2 hin
      split
      · rw [total_cons, room]
        omega
      · rename_i hn
        simp only [true_and] at hn
        omega
    | some key =>
      rw [allocated_cons_key hk] at hin ⊢
      have := ih h2 fun x hx => hin x (mem_cons_of_mem _ hx)
      have := hin e mem_cons_self
      rw [if_neg (by simp), total_cons]
      omega

/-! ## Packing -/

theorem keys_repack (id : Nat) (l : List Extent) :
    (repack cursor id l).map (fun e => (e.size, e.key)) = l.map fun e => (e.size, e.key) := by
  induction l generalizing cursor id with
  | nil => rfl
  | cons e l ih => simp [repack, ih]

theorem adjoins_repack (id : Nat) (l : List Extent) :
    Adjoins offset size cursor (repack cursor id l) (cursor + total size l) := by
  induction l generalizing cursor id with
  | nil => simp [repack, Adjoins]
  | cons e l ih =>
    refine ⟨rfl, ?_⟩
    rw [total_cons, ← Nat.add_assoc]
    exact ih _ _

theorem ids_repack (id : Nat) (l : List Extent) : (repack cursor id l).map Extent.id = List.range' id l.length := by
  induction l generalizing cursor id with
  | nil => rfl
  | cons e l ih => simp [repack, List.range'_succ, ih]

theorem mem_repack {cursor id : Nat} {e : Extent} (h : e ∈ repack cursor id l) : ∃ x ∈ l, e.size = x.size ∧ e.key = x.key := by
  have hmem : (e.size, e.key) ∈ (repack cursor id l).map fun e => (e.size, e.key) := mem_map_of_mem h
  rw [keys_repack] at hmem
  obtain ⟨x, hx, heq⟩ := mem_map.1 hmem
  exact ⟨x, hx, (Prod.mk.inj heq).1.symm, (Prod.mk.inj heq).2.symm⟩

theorem filterMap_key_repack (id : Nat) (l : List Extent) : (repack cursor id l).filterMap key = l.filterMap key := by
  have hmap : ∀ l : List Extent, l.filterMap key = (l.map fun e => (e.size, e.key)).filterMap Prod.snd := by
    intro l
    rw [filterMap_map]
    rfl
  rw [hmap, keys_repack, ← hmap]

theorem isChain_of_keys (h : ∀ e ∈ l, e.key.isSome) : l.IsChain Apart := by
  induction l with
  | nil => exact isChain_nil
  | cons e l ih =>
    refine isChain_cons.2 ⟨?_, ih fun x hx => h x (mem_cons_of_mem _ hx)⟩
    intro y _ hfe
    have hkey := h e mem_cons_self
    rw [hfe.1] at hkey
    cases hkey

theorem allocated_rest (id cursor capacity : Nat) : allocated (rest id cursor capacity) = [] := by
  unfold rest
  split <;> rfl

theorem adjoins_rest {id cursor : Nat} (h : cursor ≤ capacity) :
    Adjoins offset size cursor (rest id cursor capacity) capacity := by
  unfold rest
  split
  · exact ⟨rfl, Nat.add_sub_cancel' h⟩
  · exact (show cursor = capacity by omega)

theorem mem_rest {id cursor : Nat} {e : Extent} (h : e ∈ rest id cursor capacity) : e.id = id ∧ 0 < e.size := by
  unfold rest at h
  split at h
  · rw [mem_singleton] at h
    subst h
    exact ⟨rfl, by dsimp only; omega⟩
  · cases h

theorem isChain_rest (id cursor capacity : Nat) : (rest id cursor capacity).IsChain Apart := by
  unfold rest
  split
  · exact isChain_singleton _
  · exact isChain_nil

theorem largest_rest {id cursor : Nat} (hlimit : limit ≤ capacity) :
    ((freeBelow limit (rest id cursor capacity)).map (room limit)).foldr max 0 = limit - cursor := by
  unfold rest
  split
  · rw [freeBelow_cons]
    split
    · simp only [freeBelow, room, filter_nil, map_cons, map_nil, foldr_cons, foldr_nil]
      omega
    · rename_i hn
      simp only [true_and] at hn
      simp only [freeBelow, filter_nil, map_nil, foldr_nil]
      omega
  · simp only [freeBelow, filter_nil, map_nil, foldr_nil]
    omega

theorem freeBelow_of_keys (h : ∀ e ∈ l, e.key.isSome) : freeBelow limit l = [] := by
  rw [freeBelow, filter_eq_nil_iff]
  intro e he hn
  have hkey := h e he
  rw [(of_decide_eq_true hn).1] at hkey
  cases hkey

@[simp] theorem freeBelow_append (l l' : List Extent) : freeBelow limit (l ++ l') = freeBelow limit l ++
    freeBelow limit l' := by
  simp [freeBelow]

/-! ## Splitting a free extent -/

section Carve

variable {before after : List Extent} {e : Extent} {id : Nat} {key : Key} {n : Nat}

theorem allocated_carve (e : Extent) (id : Nat) (key : Key) (n : Nat) : allocated (e.carve id key n) = [e.front id key n] := by
  unfold carve
  rw [allocated_cons_key rfl]
  split <;> rfl

theorem mem_carve {x : Extent} (h : x ∈ e.carve id key n) :
    x = e.front id key n ∨ (x.id = id + 1 ∧ x.size = e.size - n ∧ x.key = none ∧ n < e.size) := by
  unfold carve at h
  rcases mem_cons.1 h with rfl | h
  · exact .inl rfl
  · split at h
    · rename_i hlt
      rw [mem_singleton] at h
      subst h
      exact .inr ⟨rfl, rfl, rfl, hlt⟩
    · cases h

theorem adjoins_carve (hn : n ≤ e.size) : Tiling.Adjoins offset size e.offset (e.carve id key n) (e.offset + e.size) := by
  unfold carve
  refine ⟨rfl, ?_⟩
  split
  · exact ⟨rfl, show e.offset + n + (e.size - n) = e.offset + e.size by omega⟩
  · exact (show e.offset + n = e.offset + e.size by omega)

theorem allocated_append_free (hfe : e.key = none) :
    allocated (before ++ e :: after) = allocated before ++ allocated after := by
  rw [allocated_append, allocated_cons_free hfe]

theorem allocated_append_carve : allocated (before ++ (e.carve id key n ++ after)) =
    allocated before ++ e.front id key n :: allocated after := by
  rw [allocated_append, allocated_append, allocated_carve]
  rfl

theorem keys_split (hfe : e.key = none) (id : Nat) (key : Key) (n : Nat) :
    ((before ++ (e.carve id key n ++ after)).filterMap Extent.key).Perm
      (key :: (before ++ e :: after).filterMap Extent.key) := by
  rw [← filterMap_key_allocated, allocated_append_carve, ← filterMap_key_allocated (before ++ e :: after),
    allocated_append_free hfe, filterMap_append, filterMap_append]
  exact perm_middle

theorem Layout.carve {capacity : Nat} (h : Layout capacity id (before ++ e :: after)) (hfe : e.key = none) (hn : n ≤ e.size)
    (hkey : key ∉ (before ++ e :: after).filterMap Extent.key) :
    Layout capacity (id + 2) (before ++ (e.carve id key n ++ after)) where
  adjoins := by
    obtain ⟨c, h1, h2, h3⟩ := adjoins_append_iff.1 h.adjoins
    refine adjoins_append_iff.2 ⟨c, h1, adjoins_append_iff.2 ⟨c + e.size, ?_, h3⟩⟩
    rw [← h2]
    exact adjoins_carve hn
  keys := (keys_split hfe id key n).nodup_iff.2 (nodup_cons.2 ⟨hkey, h.keys⟩)
  ids := by
    have hsub : ((e.carve id key n).map Extent.id).Sublist [id, id + 1] := by
      unfold Extent.carve
      split
      · exact List.Sublist.refl _
      · exact List.Sublist.cons_cons _ (nil_sublist _)
    have hold : ((before ++ after).map Extent.id).Nodup :=
      h.ids.sublist (List.Sublist.map _ ((List.Sublist.refl _).append (sublist_cons_self _ _)))
    have hnew : ((e.carve id key n ++ (before ++ after)).map Extent.id).Nodup := by
      rw [map_append, nodup_append]
      refine ⟨List.Nodup.sublist hsub (by simp), hold, ?_⟩
      intro i hi j hj hij
      have hi' := hsub.subset hi
      obtain ⟨x, hx, rfl⟩ := mem_map.1 hj
      have hlt : x.id < id := by
        refine h.fresh x ?_
        rcases mem_append.1 hx with hx | hx
        · exact mem_append_left _ hx
        · exact mem_append_right _ (mem_cons_of_mem _ hx)
      simp only [mem_cons, not_mem_nil, or_false] at hi'
      omega
    have hpm : (e.carve id key n ++ (before ++ after)).Perm (before ++ (e.carve id key n ++ after)) := by
      rw [← append_assoc, ← append_assoc]
      exact perm_append_comm.append_right _
    exact ((hpm.map _).nodup_iff).1 hnew
  fresh := by
    intro x hx
    rcases mem_append.1 hx with hx | hx
    · exact Nat.lt_add_right 2 (h.fresh x (mem_append_left _ hx))
    · rcases mem_append.1 hx with hx | hx
      · rcases mem_carve hx with rfl | ⟨hid, -⟩
        · exact (show id < id + 2 by omega)
        · omega
      · exact Nat.lt_add_right 2 (h.fresh x (mem_append_right _ (mem_cons_of_mem _ hx)))

theorem isChain_carve (h : (before ++ e :: after).IsChain Apart) (hfe : e.key = none) :
    (before ++ (e.carve id key n ++ after)).IsChain Apart := by
  obtain ⟨h1, h2, h3⟩ := isChain_append.1 h
  obtain ⟨h4, h5⟩ := isChain_cons.1 h2
  refine isChain_append.2 ⟨h1, ?_, ?_⟩
  · unfold carve
    split
    · refine isChain_cons_cons.2 ⟨?_, isChain_cons.2 ⟨?_, h5⟩⟩
      · intro hxy
        cases hxy.1
      · intro y hy hxy
        exact h4 y hy ⟨hfe, hxy.2⟩
    · refine isChain_cons.2 ⟨?_, h5⟩
      intro y _ hxy
      cases hxy.1
  · intro x _ y hy hxy
    obtain rfl : e.front id key n = y := by simpa [carve] using hy
    cases hxy.2

theorem size_carve {Q : Nat → Prop} (h : ∀ x ∈ before ++ e :: after, Q x.size) (hn : Q n) (hrs : n < e.size → Q (e.size - n)) :
    ∀ x ∈ before ++ (e.carve id key n ++ after), Q x.size := by
  intro x hx
  rcases mem_append.1 hx with hx | hx
  · exact h x (mem_append_left _ hx)
  · rcases mem_append.1 hx with hx | hx
    · rcases mem_carve hx with rfl | ⟨-, hsz, -, hlt⟩
      · exact hn
      · exact hsz ▸ hrs hlt
    · exact h x (mem_append_right _ (mem_cons_of_mem _ hx))

end Carve

/-! ## First fit -/

theorem firstFit_eq_some {id : Nat} {key : Key} {n : Nat} {x : Extent} {l' : List Extent}
    (h : firstFit limit id key n l = some (x, l')) :
    ∃ before e after, l = before ++ e :: after ∧ l' = before ++ (e.carve id key n ++ after) ∧ x = e.front id key n ∧
      e.key = none ∧ e.offset + n ≤ limit ∧ n ≤ e.size := by
  induction l generalizing l' with
  | nil => cases h
  | cons e l ih =>
    rw [firstFit] at h
    split at h
    · rename_i hfit
      obtain ⟨rfl, rfl⟩ := Prod.mk.inj (Option.some.inj h)
      exact ⟨[], e, l, rfl, rfl, rfl, hfit.1, by omega, by omega⟩
    · obtain ⟨⟨y, l₁⟩, hy, heq⟩ := Option.map_eq_some_iff.1 h
      obtain ⟨rfl, rfl⟩ := Prod.mk.inj heq
      obtain ⟨before, z, after, rfl, rfl, hrs⟩ := ih hy
      exact ⟨e :: before, z, after, rfl, rfl, hrs⟩

theorem firstFit_isSome (id : Nat) (key : Key) {n : Nat} {e : Extent} (he : e ∈ freeBelow limit l) (hn : n ≤ e.room limit) :
    (firstFit limit id key n l).isSome := by
  induction l with
  | nil => cases he
  | cons y l ih =>
    rw [firstFit]
    split
    · rfl
    · rename_i hfit
      rw [Option.isSome_map]
      rw [freeBelow_cons] at he
      split at he
      · rename_i hy
        rcases mem_cons.1 he with rfl | he
        · refine absurd ⟨hy.1, hy.2, ?_⟩ hfit
          rw [room] at hn
          omega
        · exact ih he
      · exact ih he

end ServerlessLLM.Simulator.Extent

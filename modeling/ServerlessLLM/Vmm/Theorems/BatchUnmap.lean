import ServerlessLLM.Vmm.Theorems.Pages

/-!
# Releases of whole arenas

`RetainStablePages` unmaps the runs of released pages in batches, and the pool is the one that single releases make.
-/

namespace ServerlessLLM.Vmm.Pool

open List Dict Prod

variable {p : Pool} {model : String}

/-! ## Runs of pages that are released -/

/-- The number of calls differs. -/
def withCalls (p : Pool) (calls : Nat) : Pool := p.withDriver { p.driver with calls := calls }

theorem releaseStablePage_withCalls (p : Pool) (calls : Nat) (model : String) (page : Nat) :
    (p.withCalls calls).releaseStablePage model page = (p.releaseStablePage model page).withCalls calls := by
  cases hid : p.extentOf model page with
  | none =>
    have hid' : (p.withCalls calls).extentOf model page = none := hid
    rw [releaseStablePage_of_none hid, releaseStablePage_of_none hid']
  | some id =>
    have hid' : (p.withCalls calls).extentOf model page = some id := hid
    rw [releaseStablePage_of_some hid, releaseStablePage_of_some hid']
    rfl

theorem releaseStablePages_withCalls (p : Pool) (calls : Nat) (model : String) (l : List Nat) :
    (p.withCalls calls).releaseStablePages model l = (p.releaseStablePages model l).withCalls calls := by
  unfold releaseStablePages
  induction l generalizing p with
  | nil => rfl
  | cons page l ih => rw [foldl_cons, foldl_cons, releaseStablePage_withCalls, ih]

theorem releaseStablePages_cons (p : Pool) (model : String) (page : Nat) (l : List Nat) :
    p.releaseStablePages model (page :: l) = (p.releaseStablePage model page).releaseStablePages model l := rfl

theorem releaseStablePages_append (p : Pool) (model : String) (l l' : List Nat) :
    p.releaseStablePages model (l ++ l') = (p.releaseStablePages model l).releaseStablePages model l' := foldl_append

theorem releaseStablePages_resident (p : Pool) (model : String) {l : List Nat} (hl : l.Nodup) :
    p.releaseStablePages model l = p.releaseStablePages model (l.filter fun page => p.extentOf model page ≠ none) := by
  induction l generalizing p with
  | nil => rfl
  | cons page l ih =>
    obtain ⟨hnot, hl⟩ := nodup_cons.1 hl
    have hflr : (l.filter fun page' => (p.releaseStablePage model page).extentOf model page' ≠ none) =
        l.filter fun page' => p.extentOf model page' ≠ none := by
      refine filter_congr fun page' hp => ?_
      rw [extentOf_releaseStablePage, if_neg (by rintro ⟨-, rfl⟩; exact hnot hp)]
    rw [releaseStablePages_cons, ih _ hl, hflr]
    cases hid : p.extentOf model page with
    | none => rw [releaseStablePage_of_none hid, filter_cons_of_neg (by simp [hid])]
    | some id => rw [filter_cons_of_pos (by simp [hid])]; rfl

theorem flushRun_calls (S : Surroundings) {first n : Nat} (hres : ∀ page ∈ range' first n, p.extentOf model page ≠ none) :
    ∃ calls, p.flushRun S model (range' first n) = (p.releaseStablePages model (range' first n)).withCalls calls := by
  rcases Nat.eq_zero_or_pos n with rfl | hn
  · exact ⟨p.driver.calls, rfl⟩
  · refine ⟨p.driver.calls + 1, ?_⟩
    rw [flushRun_eq S (by omega) hres]
    exact releaseStablePages_withCalls p _ model _

theorem retainBatch_calls (S : Surroundings) (model : String) (retainedPages : List Nat) (k first n : Nat)
    (hrun : ∀ page ∈ range' first n, p.extentOf model page ≠ none ∧ page ∉ retainedPages) :
    ∃ calls, retainBatch S model retainedPages (range' (first + n) k) (range' first n) p =
      (p.releaseStablePages model ((range' first (n + k)).filter fun page =>
        p.extentOf model page ≠ none ∧ page ∉ retainedPages)).withCalls calls := by
  have hall : ((range' first n).filter fun page => p.extentOf model page ≠ none ∧ page ∉ retainedPages) = range' first n :=
    filter_eq_self.2 fun page hp => decide_eq_true (hrun page hp)
  induction k generalizing p first n with
  | zero =>
    rw [Nat.add_zero, hall]
    exact flushRun_calls S fun page hp => (hrun page hp).1
  | succ k ih =>
    rw [range'_succ]
    unfold retainBatch
    split
    · rename_i hpg
      have hsnoc : range' first n ++ [first + n] = range' first (n + 1) := by
        rw [range'_concat, Nat.one_mul]
      have hrun' : ∀ page ∈ range' first (n + 1), p.extentOf model page ≠ none ∧ page ∉ retainedPages := by
        intro page hp
        rw [← hsnoc, mem_append, mem_singleton] at hp
        rcases hp with hp | rfl
        · exact hrun page hp
        · exact hpg
      have hnx := ih first (n + 1) hrun' (filter_eq_self.2 fun page hp => decide_eq_true (hrun' page hp))
      rw [hsnoc]
      rwa [Nat.add_right_comm, Nat.add_assoc n] at hnx
    · rename_i hpg
      obtain ⟨calls, hflush⟩ := flushRun_calls S fun page hp => (hrun page hp).1
      obtain ⟨calls', hnx⟩ := ih (p := p.flushRun S model (range' first n)) (first + n + 1) 0 (by simp) (by simp)
      refine ⟨calls', ?_⟩
      rw [range'_zero, Nat.add_zero, Nat.zero_add] at hnx
      rw [hnx, hflush, releaseStablePages_withCalls]
      -- the pages behind the run are as resident as they were before it was released
      have hspl : range' first (n + (k + 1)) = range' first n ++ (first + n) :: range' (first + n + 1) k := by
        rw [← range'_succ, range'_append_1]
      have hrs : ((range' (first + n + 1) k).filter fun page =>
          ((p.releaseStablePages model (range' first n)).withCalls calls).extentOf model page ≠ none ∧ page ∉ retainedPages) =
          (range' (first + n + 1) k).filter fun page => p.extentOf model page ≠ none ∧ page ∉ retainedPages := by
        refine filter_congr fun page hp => ?_
        have hext : ((p.releaseStablePages model (range' first n)).withCalls calls).extentOf model page =
          p.extentOf model page := by
          refine (extentOf_releaseStablePages p model model _ page).trans (if_neg ?_)
          rintro ⟨-, hmem⟩
          rw [mem_range'_1] at hp hmem
          omega
        rw [hext]
      rw [hrs, hspl, filter_append, hall, filter_cons_of_neg (by simpa using hpg), releaseStablePages_append]
      rfl

/-- The pages that `RetainStablePages` releases. -/
def releasedPages (p : Pool) (model : String) (retainedPages : List Nat) : List Nat :=
  (range (p.arenaPages model)).filter fun page => p.extentOf model page ≠ none ∧ page ∉ retainedPages

theorem retainStablePages_calls (S : Surroundings) (p : Pool) (retainedPages : List Nat) (hm : model ∈ p.stableWeights.keys) :
    ∃ calls, p.retainStablePages S model retainedPages =
      (true, (p.releaseStablePages model (p.releasedPages model retainedPages)).withCalls calls) := by
  unfold retainStablePages releasedPages
  simp only [hm, not_true_eq_false, if_false]
  split
  · obtain ⟨calls, hbat⟩ := retainBatch_calls (p := p) S model retainedPages (p.arenaPages model) 0 0 (by simp)
    rw [range'_zero, Nat.zero_add, Nat.zero_add, ← range_eq_range'] at hbat
    exact ⟨calls, congrArg (Prod.mk true) hbat⟩
  · have hnd : ((range (p.arenaPages model)).filter fun page => page ∉ retainedPages).Nodup := nodup_range.filter _
    refine ⟨(p.releaseStablePages model (p.releasedPages model retainedPages)).driver.calls, congrArg (Prod.mk true) ?_⟩
    rw [releaseStablePages_resident p model hnd, filter_filter]
    have hflr : (fun page => decide (p.extentOf model page ≠ none) && decide (page ∉ retainedPages)) =
        fun page => decide (p.extentOf model page ≠ none ∧ page ∉ retainedPages) := by
      funext page
      rw [Bool.decide_and]
    rw [hflr]
    rfl

/-! ## What a release leaves -/

theorem freeExtentIds_releaseStablePages (p : Pool) (model : String) {l : List Nat} (hl : l.Nodup) :
    (p.releaseStablePages model l).freeExtentIds = (l.filterMap (p.extentOf model)).reverse ++ p.freeExtentIds := by
  induction l generalizing p with
  | nil => rfl
  | cons page l ih =>
    obtain ⟨hnot, hl⟩ := nodup_cons.1 hl
    have hmap : l.filterMap ((p.releaseStablePage model page).extentOf model) = l.filterMap (p.extentOf model) := by
      refine filterMap_congr fun page' hp => ?_
      rw [extentOf_releaseStablePage, if_neg (by rintro ⟨-, rfl⟩; exact hnot hp)]
    rw [releaseStablePages_cons, ih _ hl, hmap, filterMap_cons]
    cases hid : p.extentOf model page with
    | none => rw [releaseStablePage_of_none hid]
    | some id =>
      rw [releaseStablePage_of_some hid]
      simp only [reverse_cons, append_assoc]
      rfl

theorem usedPages_releaseStablePages (p : Pool) (model : String) {l : List Nat} (hl : ∀ page ∈ l, p.extentOf model page ≠ none)
    (hnd : l.Nodup) : (p.releaseStablePages model l).usedPages = p.usedPages - l.length := by
  induction l generalizing p with
  | nil => rfl
  | cons page l ih =>
    obtain ⟨hnot, hnd⟩ := nodup_cons.1 hnd
    obtain ⟨id, hid⟩ := Option.ne_none_iff_exists'.1 (hl page mem_cons_self)
    have hrs : ∀ page' ∈ l, (p.releaseStablePage model page).extentOf model page' ≠ none := by
      intro page' hp
      rw [extentOf_releaseStablePage, if_neg (by rintro ⟨-, rfl⟩; exact hnot hp)]
      exact hl page' (mem_cons_of_mem _ hp)
    have hone : (p.releaseStablePage model page).usedPages = p.usedPages - 1 := by
      rw [releaseStablePage_of_some hid]
    rw [releaseStablePages_cons, ih _ hrs hnd, hone, length_cons]
    omega

theorem mapped_releaseStablePages (p : Pool) (model : String) (l : List Nat) (hl : ∀ page ∈ l, p.extentOf model page ≠ none)
    (hnd : l.Nodup) (a : PageAddr) : (p.releaseStablePages model l).driver.mapped.get? a =
      if ∃ page ∈ l, a = p.pageAddr model page then none else p.driver.mapped.get? a := by
  induction l generalizing p with
  | nil => simp [releaseStablePages]
  | cons page l ih =>
    obtain ⟨hnot, hnd⟩ := nodup_cons.1 hnd
    obtain ⟨id, hid⟩ := Option.ne_none_iff_exists'.1 (hl page mem_cons_self)
    have haddr : ∀ page', (p.releaseStablePage model page).pageAddr model page' = p.pageAddr model page' :=
      pageAddr_congr (arenas_congr (sameKV_releaseStablePage p model page).shapes) model
    have hrs : ∀ page' ∈ l, (p.releaseStablePage model page).extentOf model page' ≠ none := by
      intro page' hp
      rw [extentOf_releaseStablePage, if_neg (by rintro ⟨-, rfl⟩; exact hnot hp)]
      exact hl page' (mem_cons_of_mem _ hp)
    have hone : (p.releaseStablePage model page).driver.mapped.get? a =
        if a = p.pageAddr model page then none else p.driver.mapped.get? a := by
      rw [releaseStablePage_of_some hid]
      exact get?_erase ..
    rw [releaseStablePages_cons, ih _ hrs hnd, hone]
    simp only [haddr, mem_cons, exists_eq_or_imp]
    by_cases ha : a = p.pageAddr model page
    · simp [ha]
    · simp [ha]

/-- With and without `LAYERWEAVE_BATCH_UNMAP`, `RetainStablePages` leaves the same pool, up to the number of calls of the
driver. -/
theorem batch_unmap_eq (S : Surroundings) (p : Pool) (model : String) (retainedPages : List Nat) :
    (∃ calls, p.retainStablePages { S with batchUnmap := true } model retainedPages =
      ((p.retainStablePages { S with batchUnmap := false } model retainedPages).1,
        (p.retainStablePages { S with batchUnmap := false } model retainedPages).2.withCalls calls)) ∧
      ∀ batch, let p' := (p.retainStablePages { S with batchUnmap := batch } model retainedPages).2
        (∀ m page, p'.extentOf m page = if m = model ∧ page ∉ retainedPages then none else p.extentOf m page) ∧
        (∀ a, p'.driver.mapped.get? a =
          if ∃ page ∈ p.releasedPages model retainedPages, a = p.pageAddr model page then none else p.driver.mapped.get? a) ∧
        p'.usedPages = p.usedPages - (p.releasedPages model retainedPages).length ∧
        p'.freeExtentIds = ((p.releasedPages model retainedPages).filterMap (p.extentOf model)).reverse ++ p.freeExtentIds := by
  have hunknown : model ∉ p.stableWeights.keys → p.releasedPages model retainedPages = [] ∧ ∀ page,
    p.extentOf model page = none := by
    intro hm
    have hno := get?_eq_none_iff.2 hm
    unfold releasedPages arenaPages extentOf
    simp [hno]
  have hsa : ∀ T, ∃ calls b, p.retainStablePages T model retainedPages =
      (b, (p.releaseStablePages model (p.releasedPages model retainedPages)).withCalls calls) ∧
        (b = true ↔ model ∈ p.stableWeights.keys) := by
    intro T
    by_cases hm : model ∈ p.stableWeights.keys
    · obtain ⟨calls, h⟩ := retainStablePages_calls T p retainedPages hm
      exact ⟨calls, true, h, by simp [hm]⟩
    · refine ⟨p.driver.calls, false, ?_, by simp [hm]⟩
      rw [(hunknown hm).1]
      unfold retainStablePages
      simp only [hm, not_false_eq_true, if_true]
      rfl
  constructor
  · obtain ⟨calls, b, h, hb⟩ := hsa { S with batchUnmap := true }
    obtain ⟨calls', b', h', hb'⟩ := hsa { S with batchUnmap := false }
    obtain rfl : b = b' := Bool.eq_iff_iff.2 (hb.trans hb'.symm)
    rw [h, h']
    exact ⟨calls, rfl⟩
  · intro batch
    have hnd : (p.releasedPages model retainedPages).Nodup := nodup_range.filter _
    have hmem : ∀ page, page ∈ p.releasedPages model retainedPages ↔ p.extentOf model page ≠ none ∧ page ∉ retainedPages := by
      intro page
      unfold releasedPages
      rw [mem_filter, mem_range, decide_eq_true_eq, and_iff_right_iff_imp]
      rintro ⟨hres, -⟩
      obtain ⟨id, hid⟩ := Option.ne_none_iff_exists'.1 hres
      exact lt_arenaPages_of_extentOf hid
    have hres := fun page hp => ((hmem page).1 hp).1
    obtain ⟨calls, b, h, -⟩ := hsa { S with batchUnmap := batch }
    simp only [h]
    refine ⟨fun m page => ?_, mapped_releaseStablePages p model _ hres hnd, usedPages_releaseStablePages p model hres hnd,
      freeExtentIds_releaseStablePages p model hnd⟩
    refine (extentOf_releaseStablePages p model m _ page).trans ?_
    simp only [hmem]
    by_cases hm : m = model
    · subst hm
      by_cases hres : p.extentOf m page = none
      · simp [hres]
      · simp [hres]
    · simp [hm]

end ServerlessLLM.Vmm.Pool

import ServerlessLLM.Vmm.Lemmas.LedgerOps
import ServerlessLLM.Vmm.Manager

/-!
# Copies from the host

What a row of copies writes: the bytes of the units, at their addresses, and nothing else.
-/

namespace ServerlessLLM.Vmm

open List Option Pool

/-! ## Writing -/

namespace Driver

variable {granularity range address start n : Nat} {d : Driver} {host : Nat → UInt8} {h : Handle} {i : Nat}

@[simp] theorem mapped_writeByte (g r : Nat) (d : Driver) (a : Nat) (b : UInt8) : (d.writeByte g r a b).mapped = d.mapped := by
  unfold writeByte
  split <;> rfl

@[simp] theorem ranges_writeByte (g r : Nat) (d : Driver) (a : Nat) (b : UInt8) : (d.writeByte g r a b).ranges = d.ranges := by
  unfold writeByte
  split <;> rfl

theorem memory_writeByte (g r : Nat) (d : Driver) (a : Nat) (b : UInt8) (h : Handle) (i : Nat) :
    (d.writeByte g r a b).memory h i = if d.mapped.get? ⟨r, a / g⟩ = some h ∧ i = a % g then b else d.memory h i := by
  unfold writeByte
  cases hm : d.mapped.get? ⟨r, a / g⟩ with
  | none => simp
  | some h' =>
    by_cases hh : h = h'
    · simp [hh]
    · simp [hh, Ne.symm hh]

theorem write_succ (g r a : Nat) (host : Nat → UInt8) (s n : Nat) (d : Driver) :
    d.write g r a host s (n + 1) = (d.write g r a host s n).writeByte g r (a + n) (host (s + n)) := by
  unfold write
  rw [range_succ, foldl_append, foldl_cons, foldl_nil]

@[simp] theorem mapped_write (g r a : Nat) (host : Nat → UInt8) (s n : Nat) (d : Driver) :
    (d.write g r a host s n).mapped = d.mapped := by
  induction n with
  | zero => rfl
  | succ n ih => rw [write_succ, mapped_writeByte, ih]

@[simp] theorem ranges_write (g r a : Nat) (host : Nat → UInt8) (s n : Nat) (d : Driver) :
    (d.write g r a host s n).ranges = d.ranges := by
  induction n with
  | zero => rfl
  | succ n ih => rw [write_succ, ranges_writeByte, ih]

theorem memory_write_cases (wanted : Nat → UInt8) (hwant : ∀ k < n, host (start + k) = wanted (address + k))
    (h : Handle) (i : Nat) :
    (d.write granularity range address host start n).memory h i = d.memory h i ∨
      ∃ k < n, d.mapped.get? ⟨range, (address + k) / granularity⟩ = some h ∧ i = (address + k) % granularity ∧
        (d.write granularity range address host start n).memory h i = wanted (address + k) := by
  induction n with
  | zero => exact .inl rfl
  | succ n ih =>
    rw [write_succ, memory_writeByte, mapped_write]
    split
    · rename_i hw
      exact .inr ⟨n, Nat.lt_succ_self n, hw.1, hw.2, hwant n (Nat.lt_succ_self n)⟩
    · rcases ih fun k hk => hwant k (Nat.lt_succ_of_lt hk) with hsa | ⟨k, hk, hmpd, hi, hbyte⟩
      · exact .inl hsa
      · exact .inr ⟨k, Nat.lt_succ_of_lt hk, hmpd, hi, hbyte⟩

theorem memory_write (wanted : Nat → UInt8) (hwant : ∀ k < n, host (start + k) = wanted (address + k))
    {k : Nat} (hk : k < n) (hinj : ∀ k' < n, d.mapped.get? ⟨range, (address + k') / granularity⟩ = some h →
      (address + k) / granularity = (address + k') / granularity)
        (hm : d.mapped.get? ⟨range, (address + k) / granularity⟩ = some h) :
    (d.write granularity range address host start n).memory h ((address + k) % granularity) = wanted (address + k) := by
  induction n with
  | zero => exact absurd hk (Nat.not_lt_zero k)
  | succ n ih =>
    rw [write_succ, memory_writeByte, mapped_write]
    split
    · rename_i hw
      have hpg := hinj n (Nat.lt_succ_self n) hw.1
      have hsa : address + k = address + n := by
        rw [← Nat.div_add_mod (address + k) granularity, ← Nat.div_add_mod (address + n) granularity, hpg, hw.2]
      rw [hwant n (Nat.lt_succ_self n), hsa]
    · rename_i hw
      have hkn : k ≠ n := by
        rintro rfl
        exact hw ⟨hm, rfl⟩
      exact ih (fun k hk => hwant k (Nat.lt_succ_of_lt hk)) (Nat.lt_of_le_of_ne (Nat.le_of_lt_succ hk) hkn)
        fun k' hk' => hinj k' (Nat.lt_succ_of_lt hk')

end Driver

/-! ## Groups in an arena -/

/-- An address lies in a group. -/
def PlacedGroup.Has (g : PlacedGroup) (x : Nat) : Prop := g.offset ≤ x ∧ x < g.offset + g.size

instance (g : PlacedGroup) (x : Nat) : Decidable (g.Has x) := inferInstanceAs (Decidable (_ ∧ _))

/-- The groups follow each other in an arena of so many bytes, and have host copies. -/
structure Layout (packedBytes : Nat) (groups : List PlacedGroup) : Prop where
  apart : groups.Pairwise fun g g' => g.offset + g.size ≤ g'.offset
  inside : ∀ g ∈ groups, g.offset + g.size ≤ packedBytes
  hosts : ∀ g ∈ groups, g.host ≠ none

/-- The byte that belongs at an address. -/
def wanted (groups : List PlacedGroup) (x : Nat) : UInt8 :=
  match groups.find? fun g => g.Has x with
  | none => 0
  | some g => (g.host.getD fun _ => 0) (x - g.offset)

variable {groups : List PlacedGroup} {g g' : PlacedGroup} {packedBytes pageSize page x : Nat} {u : CopyUnit}

theorem Layout.unique (h : Layout packedBytes groups) (hg : g ∈ groups) (hg' : g' ∈ groups) (hx : g.Has x)
    (hx' : g'.Has x) : g = g' := by
  obtain ⟨i, hi, rfl⟩ := mem_iff_getElem.1 hg
  obtain ⟨j, hj, rfl⟩ := mem_iff_getElem.1 hg'
  obtain ⟨hle, hlt⟩ := hx
  obtain ⟨hle', hlt'⟩ := hx'
  rcases Nat.lt_trichotomy i j with hij | rfl | hij
  · have := pairwise_iff_getElem.1 h.apart i j hi hj hij
    omega
  · rfl
  · have := pairwise_iff_getElem.1 h.apart j i hj hi hij
    omega

theorem Layout.wanted_eq (h : Layout packedBytes groups) (hg : g ∈ groups) (hx : g.Has x) {host : Nat → UInt8}
    (hhost : g.host = some host) :
    wanted groups x = host (x - g.offset) := by
  unfold wanted
  cases hf : groups.find? fun g => g.Has x with
  | none =>
    have := find?_eq_none.1 hf g hg
    simp [hx] at this
  | some g' =>
    have hx' : g'.Has x := by simpa using find?_some hf
    obtain rfl := h.unique hg (mem_of_find?_eq_some hf) hx hx'
    simp [hhost]

theorem copyUnit_spec (hu : g.copyUnit pageSize packedBytes page = some u) (hps : 0 < pageSize) {k : Nat} (hk : k < u.bytes) :
    u.host = g.host ∧ (u.address + k) / pageSize = page ∧ g.Has (u.address + k) ∧ u.start + k = u.address + k - g.offset := by
  unfold PlacedGroup.copyUnit at hu
  simp only [ite_none_left_eq_some, some.injEq] at hu
  obtain ⟨hlt, rfl⟩ := hu
  change k < min (min (page * pageSize + pageSize) packedBytes) (g.offset + g.size) - max (page * pageSize) g.offset at hk
  refine ⟨rfl, ?_, ⟨?_, ?_⟩, ?_⟩
  · rw [Nat.div_eq_iff hps]
    simp only
    omega
  all_goals
    simp only
    omega

theorem exists_copyUnit (hx : g.Has x) (hin : g.offset + g.size ≤ packedBytes) (hpg : x / pageSize = page)
    (hps : 0 < pageSize) :
    ∃ u k, g.copyUnit pageSize packedBytes page = some u ∧ k < u.bytes ∧ u.address + k = x := by
  obtain ⟨hle, hlt⟩ := hx
  have hlo : page * pageSize ≤ x := by
    rw [← hpg]
    exact Nat.div_mul_le_self x pageSize
  have hhi : x < page * pageSize + pageSize := by
    rw [← hpg]
    exact Nat.lt_div_mul_add hps
  refine ⟨⟨max (page * pageSize) g.offset, min (min (page * pageSize + pageSize) packedBytes) (g.offset + g.size) -
    max (page * pageSize) g.offset,
    g.host, max (page * pageSize) g.offset - g.offset⟩, x - max (page * pageSize) g.offset, ?_, ?_, ?_⟩
  · unfold PlacedGroup.copyUnit
    simp only
    rw [if_neg (by omega)]
  · simp only
    omega
  · simp only
    omega

theorem mem_copyUnits {pages : List Nat} : u ∈ copyUnits pageSize packedBytes groups pages ↔
    ∃ page ∈ pages, ∃ g ∈ groups, g.copyUnit pageSize packedBytes page = some u := by
  simp [copyUnits, mem_flatMap, mem_filterMap]

/-! ## Rows of copies -/

namespace Pool

variable {S : Surroundings} {c : Call} {base : Nat} {p : Pool} {model : String} {arena : StableWeightArena} {lost : List Nat}

structure Copies (p : Pool) (model : String) (arena : StableWeightArena) (wants : Nat → UInt8)
    (units : List CopyUnit) : Prop where
  arena : p.stableWeights.get? model = some arena
  resident : ∀ u ∈ units, ∀ k < u.bytes, p.extentOf model ((u.address + k) / p.granularity) ≠ none
  bytes : ∀ u ∈ units, ∀ host ∈ u.host, ∀ k < u.bytes, host (u.start + k) = wants (u.address + k)

/-- What copies leave: a pool with another memory, in which only bytes of the units may be changed, to the wanted ones. -/
structure Copied (p : Pool) (model : String) (wants : Nat → UInt8) (units : List CopyUnit) (p' : Pool) : Prop where
  pool : ∃ d, p' = p.withDriver d ∧ d.mapped = p.driver.mapped ∧ d.ranges = p.driver.ranges
  memory : ∀ handle i, p'.driver.memory handle i = p.driver.memory handle i ∨
    ∃ u ∈ units, ∃ k < u.bytes, ∃ id, handle = .extent id ∧ p.extentOf model ((u.address + k) / p.granularity) = some id ∧
      i = (u.address + k) % p.granularity ∧ p'.driver.memory handle i = wants (u.address + k)

theorem Copied.refl (p : Pool) (model : String) (wants : Nat → UInt8) (units : List CopyUnit) : Copied p model wants units p :=
  ⟨⟨p.driver, rfl, rfl, rfl⟩, fun _ _ => .inl rfl⟩

theorem Copies.mapped_iff {wants : Nat → UInt8} {units : List CopyUnit} (hc : Copies p model arena wants units)
    (h : Sound p [] lost)
    {u : CopyUnit} (hu : u ∈ units) {k : Nat} (hk : k < u.bytes) {handle : Handle} :
    p.driver.mapped.get? ⟨arena.va, (u.address + k) / p.granularity⟩ = some handle ↔
      ∃ id, handle = .extent id ∧ p.extentOf model ((u.address + k) / p.granularity) = some id := by
  rw [h.mapped_arena hc.arena]
  obtain ⟨id', hid'⟩ := ne_none_iff_exists'.1 (hc.resident u hu k hk)
  constructor
  · rintro (⟨id, hid, rfl⟩ | ⟨aliases, hali, hpg, -⟩)
    · exact ⟨id, rfl, hid⟩
    · exact absurd hpg (h.not_aliased hc.arena hid' hali)
  · rintro ⟨id, rfl, hid⟩
    exact .inl ⟨id, hid, rfl⟩

theorem copied_write {wants : Nat → UInt8} {units : List CopyUnit} (hc : Copies p model arena wants units) (h : Sound p [] lost)
    {u : CopyUnit} (hu : u ∈ units) {host : Nat → UInt8} (hhost : u.host = some host) :
    let p' := p.withDriver (p.driver.called.write p.granularity arena.va u.address host u.start u.bytes)
    Copied p model wants units p' ∧ ∀ k < u.bytes, ∀ id, p.extentOf model ((u.address + k) / p.granularity) = some id →
      p'.driver.memory (.extent id) ((u.address + k) % p.granularity) = wants (u.address + k) := by
  have hwant := hc.bytes u hu host hhost
  refine ⟨⟨⟨_, rfl, Driver.mapped_write .., Driver.ranges_write ..⟩, ?_⟩, ?_⟩
  · intro handle i
    have hcases : _ ∨ ∃ k < u.bytes, p.driver.called.mapped.get? ⟨arena.va, (u.address + k) / p.granularity⟩ =
      some handle ∧ _ :=
      Driver.memory_write_cases wants hwant handle i
    rcases hcases with hsa | ⟨k, hk, hm, hi, hbyte⟩
    · exact .inl hsa
    · obtain ⟨id, rfl, hid⟩ := (hc.mapped_iff h hu hk).1 hm
      exact .inr ⟨u, hu, k, hk, id, rfl, hid, hi, hbyte⟩
  · intro k hk id hid
    refine Driver.memory_write (d := p.driver.called) wants hwant hk ?_ ((hc.mapped_iff h hu hk).2 ⟨id, rfl, hid⟩)
    intro k' hk' hm
    obtain ⟨id', heq, hid'⟩ := (hc.mapped_iff h hu hk').1 hm
    cases heq
    exact (h.extent_inj hid hid').2

theorem copy_spec (S : Surroundings) (c : Call) {wants : Nat → UInt8} (units : List CopyUnit) (h : Sound p [] lost)
    (hcopies : Copies p model arena wants units) :
    ∃ r p', copy S c arena.va units p = (r, p') ∧ Copied p model wants units p' ∧
      (r = .noHost → ∃ u ∈ units, u.host = none) ∧ ((∀ n, S.succeeds c n = true) → r ≠ .failed) ∧
      (r = .done → ∀ u ∈ units, ∀ k < u.bytes, ∀ id, p.extentOf model ((u.address + k) / p.granularity) = some id →
        p'.driver.memory (.extent id) ((u.address + k) % p.granularity) = wants (u.address + k)) := by
  induction units generalizing p with
  | nil => exact ⟨.done, p, rfl, Copied.refl .., nofun, nofun, fun _ u hu => absurd hu not_mem_nil⟩
  | cons u units ih =>
    cases hhost : u.host with
    | none =>
      refine ⟨.noHost, p, ?_, Copied.refl .., fun _ => ⟨u, mem_cons_self, hhost⟩, nofun, nofun⟩
      unfold copy
      rw [hhost]
    | some host =>
      by_cases hok : S.succeeds c p.driver.calls = true
      · obtain ⟨hcop, hbyt⟩ := copied_write hcopies h mem_cons_self hhost
        set d := p.driver.called.write p.granularity arena.va u.address host u.start u.bytes with hd
        have hmpd : d.mapped = p.driver.mapped := Driver.mapped_write ..
        have hrgs : d.ranges = p.driver.ranges := Driver.ranges_write ..
        have hlike : Like p (p.withDriver d) := like_withDriver p (Nat.le_of_eq hrgs.symm) hmpd
        have hrs : Copies (p.withDriver d) model arena wants units :=
          ⟨hcopies.arena, fun v hv => hcopies.resident v (mem_cons_of_mem _ hv),
            fun v hv => hcopies.bytes v (mem_cons_of_mem _ hv)⟩
        obtain ⟨r, p', heq, hcop', hno, hfl, hdone⟩ := ih (h.like hlike) hrs
        have hcases : ∀ handle i, p'.driver.memory handle i = d.memory handle i ∨
            ∃ v ∈ units, ∃ k < v.bytes, ∃ id, handle = .extent id ∧
              p.extentOf model ((v.address + k) / p.granularity) = some id ∧
              i = (v.address + k) % p.granularity ∧ p'.driver.memory handle i = wants (v.address + k) := hcop'.memory
        refine ⟨r, p', ?_, ⟨?_, ?_⟩, ?_, hfl, ?_⟩
        · unfold copy Driver.cudaMemcpy
          simp only [hhost, hok, if_true]
          exact heq
        · obtain ⟨d', rfl, hmpd', hrgs'⟩ := hcop'.pool
          exact ⟨d', rfl, hmpd'.trans hmpd, hrgs'.trans hrgs⟩
        · intro handle i
          rcases hcases handle i with hsa | ⟨v, hv, hrs⟩
          · rw [hsa]
            exact hcop.memory handle i
          · exact .inr ⟨v, mem_cons_of_mem _ hv, hrs⟩
        · intro hr
          obtain ⟨v, hv, hvn⟩ := hno hr
          exact ⟨v, mem_cons_of_mem _ hv, hvn⟩
        · intro hr v hv k hk id hid
          rcases mem_cons.1 hv with rfl | hv
          · rcases hcases (.extent id) ((v.address + k) % p.granularity) with hsa |
              ⟨v', hv', k', hk', id', heq', hid', hi, hbyte⟩
            · rw [hsa]
              exact hbyt k hk id hid
            · -- a later copy to the same byte
              cases heq'
              have hpg := (h.extent_inj hid hid').2
              have haddress : v.address + k = v'.address + k' := by
                rw [← Nat.div_add_mod (v.address + k) p.granularity, ← Nat.div_add_mod (v'.address + k') p.granularity, hpg, hi]
              rw [hbyte, haddress]
          · exact hdone hr v hv k hk id hid
      · refine ⟨.failed, p.withDriver p.driver.called, ?_, ⟨⟨_, rfl, rfl, rfl⟩, fun _ _ => .inl rfl⟩, nofun,
          fun hall => absurd (hall _) hok, nofun⟩
        unfold copy Driver.cudaMemcpy
        simp only [hhost, if_neg hok]
        rfl

end Pool

end ServerlessLLM.Vmm

import ServerlessLLM.Vmm.Lemmas.CopyOps
import ServerlessLLM.Vmm.Lemmas.RunOps

/-!
# Loading into a pool

What the pool calls of the manager do to the resident pages and to their bytes. Most calls only release pages.
-/

namespace ServerlessLLM.Vmm.Pool

open Option Pool VmmVRAMManager

variable {S : Surroundings} {p p' p'' : Pool} {path model : String} {groups gs : List PlacedGroup} {packedBytes page id : Nat}
  {arena : StableWeightArena}

/-- What all pool calls of the manager keep, except those that reserve or give up an arena. -/
structure Moves (p p' : Pool) : Prop where
  granularity : p'.granularity = p.granularity
  shapes : p'.shapes = p.shapes
  weights : ∀ e ∈ p'.weights.entries, e ∈ p.weights.entries

theorem Moves.trans (h : Moves p p') (h' : Moves p' p'') : Moves p p'' :=
  ⟨h'.granularity.trans h.granularity, h'.shapes.trans h.shapes, fun e he => h.weights e (h'.weights e he)⟩

/-- Pages are only released, and no byte is written. -/
structure Fades (p p' : Pool) : Prop extends Moves p p' where
  memory : p'.driver.memory = p.driver.memory
  shrinks : ∀ m page id, p'.extentOf m page = some id → p.extentOf m page = some id

theorem Fades.trans (h : Fades p p') (h' : Fades p' p'') : Fades p p'' :=
  ⟨h.toMoves.trans h'.toMoves, h'.memory.trans h.memory, fun m page id hid => h.shrinks m page id (h'.shrinks m page id hid)⟩

theorem Shrunk.fades {protectedFps : List String} (h : Shrunk protectedFps p p') : Fades p p' :=
  ⟨⟨h.granularity, h.shapes, h.weights⟩, h.memory, h.shrinks⟩

theorem Released.fades {gone : Nat → Prop} (h : Released model gone p p') : Fades p p' :=
  ⟨⟨h.granularity, h.shapes, fun e he => by rwa [h.weights] at he⟩, h.memory, fun _ _ _ hid => h.shrinks hid⟩

/-- The page shows the bytes of the model, if it is resident. -/
def ShowsAt (p : Pool) (path : String) (groups : List PlacedGroup) (page : Nat) : Prop :=
  ∀ id, p.extentOf path page = some id → ∀ x, x / p.granularity = page → (∃ g ∈ groups, g.Has x) →
    p.driver.memory (.extent id) (x % p.granularity) = wanted groups x

/-- Every resident page of the model shows its bytes. -/
def Shows (p : Pool) (path : String) (groups : List PlacedGroup) : Prop := ∀ page, p.ShowsAt path groups page

theorem Fades.showsAt (h : Fades p p') (hs : p.ShowsAt path groups page) : p'.ShowsAt path groups page := by
  intro id hid x hx hg
  rw [h.granularity] at hx ⊢
  rw [h.memory]
  exact hs id (h.shrinks path page id hid) x hx hg

theorem Fades.shows (h : Fades p p') (hs : Shows p path groups) : Shows p' path groups := fun page => h.showsAt (hs page)

/-! ## The calls -/

theorem Reached.setModelAccessCount (h : Reached p) (path : String) (count : Nat) :
    Reached (p.setModelAccessCount path count) ∧ Fades p (p.setModelAccessCount path count) :=
  ⟨h.step (c := (.reliable, .setModelAccessCount path count)) rfl, ⟨rfl, rfl, fun _ he => he⟩, rfl, fun _ _ _ hid => hid⟩

theorem Reached.cleanKV (h : Reached p) (S : Surroundings) : Reached (p.cleanKV S) ∧ Fades p (p.cleanKV S) := by
  refine ⟨h.step (c := (S, .cleanKV)) rfl, ?_⟩
  obtain ⟨⟨lost, hs⟩, hk⟩ := h
  exact (cleanKV_spec S hs hk []).2.2.1.fades

theorem Reached.releaseStablePages (h : Reached p) (model : String) (pages : List Nat) :
    Reached (p.releaseStablePages model pages) ∧ Fades p (p.releaseStablePages model pages) :=
  ⟨h.step (c := (.reliable, .rollbackStablePages model pages)) rfl, (released_releaseStablePages p model pages).fades⟩

theorem Reached.retainStablePages (h : Reached p) (S : Surroundings) (model : String) (retainedPages : List Nat) :
    Reached (p.retainStablePages S model retainedPages).2 ∧ Fades p (p.retainStablePages S model retainedPages).2 :=
  ⟨h.step (c := (S, .retainStablePages model retainedPages)) rfl, (released_retainStablePages S p model retainedPages).fades⟩

theorem fades_of_sameKV (h : SameKV { p with bindingAliases := p'.bindingAliases } p')
    (hstb : p'.stableWeights = p.stableWeights)
    (hwts : p'.weights = p.weights) : Fades p p' := by
  refine ⟨⟨h.granularity, h.shapes, fun e he => by rwa [hwts] at he⟩, h.memory, fun m page id hid => ?_⟩
  unfold extentOf at hid ⊢
  rwa [hstb] at hid

theorem Reached.beginStableBinding (h : Reached p) (S : Surroundings) (model : String) :
    Reached (p.beginStableBinding S model).2 ∧ Fades p (p.beginStableBinding S model).2 := by
  obtain ⟨hkv, hstb, hwts, -⟩ := beginStableBinding_tables S p model
  exact ⟨h.step (c := (S, .beginStableBinding model)) rfl, fades_of_sameKV hkv hstb hwts⟩

theorem Reached.endStableBinding (h : Reached p) (model : String) :
    Reached (p.endStableBinding model).2 ∧ Fades p (p.endStableBinding model).2 := by
  obtain ⟨hkv, -, hwts, hstb, -⟩ := endStableBinding_tables p model
  exact ⟨h.step (c := (.reliable, .endStableBinding model)) rfl, fades_of_sameKV hkv hstb hwts⟩

theorem Reached.allocateKVBlocks (h : Reached p) (S : Surroundings) (blockSize : Nat) (ids : List Nat)
    (protectedFps : List String) :
    Reached (p.allocateKVBlocks S blockSize ids protectedFps).2 ∧
      Fades p (p.allocateKVBlocks S blockSize ids protectedFps).2 := by
  refine ⟨h.step (c := (S, .allocateKVBlocks blockSize ids protectedFps)) rfl, ?_⟩
  obtain ⟨⟨lost, hs⟩, hk⟩ := h
  obtain ⟨r, p', heq, hst, -⟩ := allocateKVBlocks_spec S blockSize ids protectedFps hs hk
  rw [heq]
  exact hst.shrunk.fades

theorem Reached.releaseKVBlocks (h : Reached p) (ids : List Nat) :
    Reached (p.releaseKVBlocks ids) ∧ Fades p (p.releaseKVBlocks ids) := by
  refine ⟨h.step (c := (.reliable, .releaseKVBlocks ids)) rfl, ?_⟩
  obtain ⟨⟨lost, hs⟩, hk⟩ := h
  exact (releaseKVBlocks_spec hs hk [] ids).2.2.1.fades

theorem Reached.mapKV (h : Reached p) (S : Surroundings) (blockSize : Nat) (blockCount : ℤ) (protectedFps : List String) :
    Reached (p.mapKV S blockSize blockCount protectedFps).2 ∧ Fades p (p.mapKV S blockSize blockCount protectedFps).2 := by
  refine ⟨h.step (c := (S, .mapKV blockSize blockCount protectedFps)) rfl, ?_⟩
  obtain ⟨⟨lost, hs⟩, hk⟩ := h
  obtain ⟨r, p', heq, -, hshr, -⟩ := mapKV_spec S blockSize blockCount protectedFps hs hk
  rw [heq]
  exact hshr.fades

theorem Reached.dropPages (h : Reached p) (model : String) : Reached (p.dropStableWeight model false) ∧
    Fades p (p.dropStableWeight model false) ∧ (∀ page, (p.dropStableWeight model false).extentOf model page = none) := by
  have heq : p.dropStableWeight model false = p.releaseStablePages model (List.range (p.arenaPages model)) := by
    rw [dropStableWeight_eq]
    simp
  have hrel := released_arena p model
  rw [heq]
  exact ⟨(h.releaseStablePages model _).1, hrel.fades, fun page => hrel.free page trivial⟩

/-! ## Mapping and copying -/

/-- The missing ones of the requested pages are mapped; nothing is written. -/
structure Loads (p : Pool) (path : String) (requested newly : List Nat) (p' : Pool) : Prop extends Moves p p' where
  reached : Reached p'
  memory : p'.driver.memory = p.driver.memory
  nodup : newly.Nodup
  mem_newly : ∀ page, page ∈ newly ↔ page ∈ requested ∧ p.extentOf path page = none
  resident : ∀ page ∈ requested, p'.extentOf path page ≠ none
  others : ∀ m page, ¬(m = path ∧ page ∈ newly) → ∀ id, p'.extentOf m page = some id → p.extentOf m page = some id

theorem Reached.mapStablePages (h : Reached p) (S : Surroundings) (path : String) (requested : List Nat) :
    ∃ r p', p.mapStablePages S path requested [path] = (r, p') ∧ (r = none → Reached p' ∧ Fades p p') ∧
      ∀ newly, r = some newly → Loads p path requested newly p' := by
  have hnx := h.step (c := (S, .mapStablePages path requested [path])) rfl
  obtain ⟨⟨lost, hs⟩, hk⟩ := h
  obtain ⟨r, p', heq, -, hkv, -, p₁, hev, hwts, hfail, hok⟩ := mapStablePages_spec S path requested [path] hs
  rw [heq] at hnx
  have hmvs : Moves p p' := ⟨hkv.granularity, hkv.shapes, fun e he => hev.weights e (by rwa [hwts] at he)⟩
  refine ⟨r, p', heq, fun hr => ⟨hnx, hmvs, hkv.memory, ?_⟩, ?_⟩
  · intro m page id hid
    rw [hfail hr] at hid
    exact hev.shrinks m page id hid
  · intro newly hr
    obtain ⟨hmpd, hres⟩ := hok newly hr
    have hkeep : ∀ page, p₁.extentOf path page = p.extentOf path page := hev.keeps path (by simp)
    refine ⟨hmvs, hnx, hkv.memory, hmpd.nodup, fun page => ⟨?_, ?_⟩, hres, ?_⟩
    · intro hp
      obtain ⟨hreq, hno, -⟩ := hmpd.fresh page hp
      exact ⟨hreq, by rwa [hkeep] at hno⟩
    · rintro ⟨hp, hno⟩
      by_contra hnot
      have hsa := hmpd.others path page fun hp => hnot hp.2
      exact hres page hp (by rw [hsa, hkeep, hno])
    · intro m page hne id hid
      rw [hmpd.others m page hne] at hid
      exact hev.shrinks m page id hid

theorem Loads.showsAt {requested newly : List Nat} (h : Loads p path requested newly p') (hne : ¬(model = path ∧ page ∈ newly))
    (hs : p.ShowsAt model gs page) : p'.ShowsAt model gs page := by
  intro id hid x hx hg
  rw [h.granularity] at hx ⊢
  rw [h.memory]
  exact hs id (h.others model page hne id hid) x hx hg

theorem shows_rollback {newly : List Nat} (hs : ∀ page, ¬(model = path ∧ page ∈ newly) → p.ShowsAt model gs page) :
    Shows (p.releaseStablePages path newly) model gs := by
  intro page
  by_cases hnew : model = path ∧ page ∈ newly
  · intro id hid
    rw [extentOf_releaseStablePages, if_pos hnew] at hid
    cases hid
  · exact (released_releaseStablePages p path newly).fades.showsAt (hs page hnew)

theorem copies_copyUnits (hlay : Layout packedBytes groups) (ha : p.stableWeights.get? path = some arena) {pages : List Nat}
    (hres : ∀ page ∈ pages, p.extentOf path page ≠ none) :
    Copies p path arena (wanted groups) (copyUnits p.granularity packedBytes groups pages) := by
  refine ⟨ha, ?_, ?_⟩
  · intro u hu k hk
    obtain ⟨page, hp, g, -, hunit⟩ := mem_copyUnits.1 hu
    rw [(copyUnit_spec hunit p.granularity_pos hk).2.1]
    exact hres page hp
  · intro u hu host hhost k hk
    obtain ⟨page, -, g, hg, hunit⟩ := mem_copyUnits.1 hu
    obtain ⟨hhost', -, hhas, hstart⟩ := copyUnit_spec hunit p.granularity_pos hk
    rw [hlay.wanted_eq hg hhas (hhost'.symm.trans hhost), hstart]

theorem copyUnits_host (hlay : Layout packedBytes groups) {pages : List Nat} {pageSize : Nat} {u : CopyUnit}
    (hu : u ∈ copyUnits pageSize packedBytes groups pages) : u.host ≠ none := by
  obtain ⟨page, -, g, hg, hunit⟩ := mem_copyUnits.1 hu
  unfold PlacedGroup.copyUnit at hunit
  simp only [ite_none_left_eq_some, some.injEq] at hunit
  obtain ⟨-, rfl⟩ := hunit
  exact hlay.hosts g hg

section Copied

variable {wants : Nat → UInt8} {units : List CopyUnit}

theorem Copied.extentOf (h : Copied p model wants units p') (m : String) (page : Nat) : p'.extentOf m page =
    p.extentOf m page := by
  obtain ⟨d, rfl, -⟩ := h.pool
  rfl

theorem Copied.moves (h : Copied p model wants units p') : Moves p p' := by
  obtain ⟨d, rfl, -⟩ := h.pool
  exact ⟨rfl, rfl, fun _ he => he⟩

theorem Copied.reached (h : Copied p model wants units p') (hr : Reached p) : Reached p' := by
  obtain ⟨⟨lost, hs⟩, hk⟩ := hr
  obtain ⟨d, rfl, hmpd, hrgs⟩ := h.pool
  exact ⟨⟨lost, hs.like (like_withDriver p (Nat.le_of_eq hrgs.symm) hmpd)⟩, hk.congr rfl rfl rfl rfl⟩

theorem Copied.showsAt (h : Copied p path (wanted groups) units p') (hr : Reached p) (hgs : model = path → gs = groups)
    (hs : p.ShowsAt model gs page) : p'.ShowsAt model gs page := by
  obtain ⟨⟨lost, hsnd⟩, -⟩ := hr
  intro id hid x hx hg
  rw [h.extentOf] at hid
  rw [h.moves.granularity] at hx ⊢
  rcases h.memory (.extent id) (x % p.granularity) with hsa | ⟨u, -, k, -, id', heq, hid', hi, hbyte⟩
  · rw [hsa]
    exact hs id hid x hx hg
  · cases heq
    obtain ⟨rfl, hpg⟩ := hsnd.extent_inj hid hid'
    have haddress : x = u.address + k := by
      rw [← Nat.div_add_mod x p.granularity, ← Nat.div_add_mod (u.address + k) p.granularity, hx, hpg, hi]
    rw [hbyte, hgs rfl, haddress]

end Copied

theorem showsAt_of_copied (hlay : Layout packedBytes groups) {pages : List Nat} (hpg : page ∈ pages)
    (hg : p'.granularity = p.granularity) (hext : p'.extentOf path page = p.extentOf path page)
    (hdone : ∀ u ∈ copyUnits p.granularity packedBytes groups pages, ∀ k < u.bytes, ∀ id,
      p.extentOf path ((u.address + k) / p.granularity) = some id →
        p'.driver.memory (.extent id) ((u.address + k) % p.granularity) = wanted groups (u.address + k)) :
    p'.ShowsAt path groups page := by
  intro id hid x hx ⟨g, hgm, hhas⟩
  rw [hg] at hx ⊢
  rw [hext] at hid
  obtain ⟨u, k, hu, hk, rfl⟩ := exists_copyUnit hhas (hlay.inside g hgm) hx p.granularity_pos
  exact hdone u (mem_copyUnits.2 ⟨page, hpg, g, hgm, hu⟩) k hk id (by rw [hx, hid])

theorem Goes.copy {q : Pool} (h : Goes S p q) (S' : Surroundings) (c : Call) (base : Nat) (units : List CopyUnit) :
    Goes S p (copy S' c base units q).2 := by
  induction units generalizing q with
  | nil => exact h
  | cons u units ih =>
    unfold Pool.copy
    cases u.host with
    | none => exact h
    | some host =>
      unfold Driver.cudaMemcpy
      by_cases hok : S'.succeeds c q.driver.calls = true
      · simp only [hok, if_true]
        exact ih (h.write _ (Driver.mapped_write ..) (Driver.ranges_write ..))
      · simp only [if_neg hok]
        exact h.write _ rfl rfl

/-! ## The loads of the manager -/

/-- What a load has done when it succeeds: the missing pages are mapped, and the parts of the groups in them are written. -/
structure Filled (p : Pool) (path : String) (groups : List PlacedGroup) (packedBytes : Nat) (newly : List Nat)
    (p' : Pool) : Prop where
  nodup : newly.Nodup
  memory : ∀ handle i, p'.driver.memory handle i = p.driver.memory handle i ∨
    ∃ u ∈ copyUnits p.granularity packedBytes groups newly, ∃ k < u.bytes, ∃ id, handle = .extent id ∧
      p'.extentOf path ((u.address + k) / p.granularity) = some id ∧ i = (u.address + k) % p.granularity ∧
      p'.driver.memory handle i = wanted groups (u.address + k)
  shows : ∀ page ∈ newly, p'.ShowsAt path groups page
  resident : ∀ page ∈ newly, p'.extentOf path page ≠ none

theorem Loads.copy {requested newly : List Nat} (hl : Loads p path requested newly p') (pages : List Nat)
    (S : Surroundings) (c : Call)
    (ha : p'.stableWeights.get? path = some arena) (hlay : Layout packedBytes groups)
      (hpgs : ∀ page, page ∈ pages ↔ page ∈ newly) :
    ∃ r p'', copy S c arena.va (copyUnits p'.granularity packedBytes groups pages) p' = (r, p'') ∧ r ≠ .noHost ∧
      ((∀ n, S.succeeds c n = true) → r ≠ .failed) ∧ Reached p'' ∧ Moves p p'' ∧
      (∀ m gs page, (m = path → gs = groups) → ¬(m = path ∧ page ∈ newly) → p.ShowsAt m gs page → p''.ShowsAt m gs page) ∧
      (∀ m page, p''.extentOf m page = p'.extentOf m page) ∧
      (r = .done → Filled p path groups packedBytes newly p'') := by
  have hr := hl.reached
  obtain ⟨⟨lost, hs⟩, -⟩ := id hr
  have hres : ∀ page ∈ pages, p'.extentOf path page ≠ none := fun page hp =>
    hl.resident page ((hl.mem_newly page).1 ((hpgs page).1 hp)).1
  obtain ⟨r, p'', heq, hcop, hno, hfl, hdone⟩ := copy_spec S c _ hs (copies_copyUnits hlay ha hres)
  have hshowsAt : ∀ page ∈ newly, r = .done → p''.ShowsAt path groups page := fun page hp hr =>
    showsAt_of_copied hlay ((hpgs page).2 hp) hcop.moves.granularity (hcop.extentOf path page) (hdone hr)
  refine ⟨r, p'', heq, ?_, hfl, hcop.reached hr, hl.toMoves.trans hcop.moves, ?_,
    hcop.extentOf, fun hr => ⟨hl.nodup, ?_, fun page hp => hshowsAt page hp hr, ?_⟩⟩
  · intro hr
    obtain ⟨u, hu, hn⟩ := hno hr
    exact copyUnits_host hlay hu hn
  · intro m gs page hgs hne hshow
    exact hcop.showsAt hr hgs (hl.showsAt hne hshow)
  · intro handle i
    rw [← hl.memory, ← hl.granularity]
    rcases hcop.memory handle i with hsa | ⟨u, hu, k, hk, id, hid, hext, hrs⟩
    · exact .inl hsa
    · obtain ⟨page, hp, g, hg, hunit⟩ := mem_copyUnits.1 hu
      exact .inr ⟨u, mem_copyUnits.2 ⟨page, (hpgs page).1 hp, g, hg, hunit⟩, k, hk, id, hid, by rw [hcop.extentOf, hext], hrs⟩
  · intro page hp
    rw [hcop.extentOf]
    exact hl.resident page ((hl.mem_newly page).1 hp).1

theorem Filled.of_fades {newly : List Nat} (hf : Fades p p') (h : Filled p' path groups packedBytes newly p'') :
    Filled p path groups packedBytes newly p'' := by
  refine ⟨h.nodup, ?_, h.shows, h.resident⟩
  rw [← hf.memory, ← hf.granularity]
  exact h.memory

theorem Reached.prepareLoad (h : Reached p) (S : Surroundings) (path : String) (disableReuse : Bool) :
    let q := if disableReuse then (p.cleanKV S).dropStableWeight path false else p.cleanKV S
    Reached q ∧ Fades p q ∧ ∀ page, q.extentOf path page = none ↔ disableReuse = true ∨ p.extentOf path page = none := by
  obtain ⟨hcln, hfad⟩ := h.cleanKV S
  have hstb : ∀ page, (p.cleanKV S).extentOf path page = p.extentOf path page := by
    obtain ⟨⟨lost, hs⟩, hk⟩ := h
    intro page
    unfold extentOf
    rw [(cleanKV_spec S hs hk []).2.2.2.2.2.2]
  cases disableReuse with
  | true =>
    obtain ⟨hdrop, hfad', hno⟩ := hcln.dropPages path
    exact ⟨hdrop, hfad.trans hfad', by simp [hno]⟩
  | false => exact ⟨hcln, hfad, by simp [hstb]⟩

variable (S : Surroundings)

theorem loadIntoPool_spec (disableReuse : Bool) (h : Reached p) (hlay : Layout packedBytes groups)
    (ha : p.stableWeights.get? path = some arena) :
    ∃ r p', loadIntoPool S path groups packedBytes disableReuse p = (r, p') ∧ Reached p' ∧ Moves p p' ∧
      (∀ m gs, (m = path → gs = groups) → Shows p m gs → Shows p' m gs) ∧
      ∀ n, r = some n → ∃ newly, Filled p path groups packedBytes newly p' ∧
        (∀ page, page ∈ newly ↔ page < p.arenaPages path ∧ (disableReuse = true ∨ p.extentOf path page = none)) ∧
        n = ((copyUnits p.granularity packedBytes groups newly).map CopyUnit.bytes).sum ∧
        (∀ page < p.arenaPages path, p'.extentOf path page ≠ none) ∧
        ∃ q, q.driver.memory = p.driver.memory ∧
          copy S .memcpy (q.pageAddr path 0).range (copyUnits p.granularity packedBytes groups newly) q = (.done, p') := by
  obtain ⟨hq, hfad, hno⟩ := h.prepareLoad S path disableReuse
  unfold loadIntoPool mapStableWeight
  simp only
  generalize (if disableReuse = true then (p.cleanKV S).dropStableWeight path false else p.cleanKV S) = q at *
  obtain ⟨r, p₂, heq, hfail, hok⟩ := hq.mapStablePages S path (List.range (q.arenaPages path))
  rw [heq]
  cases r with
  | none =>
    obtain ⟨hr, hfad'⟩ := hfail rfl
    exact ⟨none, p₂, rfl, hr, (hfad.trans hfad').toMoves, fun m gs _ hs => (hfad.trans hfad').shows hs, nofun⟩
  | some newly =>
    have hl := hok newly rfl
    -- the pool after `cudaSetDevice`
    have hl' : Loads q path (List.range (q.arenaPages path)) newly (p₂.withDriver p₂.driver.called) := by
      obtain ⟨⟨lost, hs⟩, hk⟩ := hl.reached
      exact ⟨⟨hl.granularity, hl.shapes, hl.weights⟩, ⟨⟨lost, hs.like (like_called p₂)⟩, hk.congr rfl rfl rfl rfl⟩,
        hl.memory, hl.nodup,
        hl.mem_newly, hl.resident, hl.others⟩
    have hrollback : ∀ p₃, Reached p₃ → Moves q p₃ →
        (∀ m gs page, (m = path → gs = groups) → ¬(m = path ∧ page ∈ newly) → q.ShowsAt m gs page → p₃.ShowsAt m gs page) →
        Reached (p₃.rollbackStablePages path newly) ∧ Moves p (p₃.rollbackStablePages path newly) ∧
          ∀ m gs, (m = path → gs = groups) → Shows p m gs → Shows (p₃.rollbackStablePages path newly) m gs := by
      intro p₃ hr hmvs hshw
      obtain ⟨hr', hfad'⟩ := hr.releaseStablePages path newly
      refine ⟨hr', (hfad.toMoves.trans hmvs).trans hfad'.toMoves, ?_⟩
      intro m gs hgs hs
      exact shows_rollback fun page hne => hshw m gs page hgs hne (hfad.showsAt (hs page))
    obtain ⟨arena', ha', hva, -⟩ := get?_of_shapes (hl'.shapes.trans hfad.shapes) ha
    by_cases hset : (p₂.driver.cudaSetDevice S).1 = true
    · simp only [hset, Bool.not_true, Bool.false_eq_true, if_false]
      obtain ⟨r, p₃, heqc, hhost, -, hr, hmvs, hshw, hext, hdone⟩ := hl'.copy _ S .memcpy ha' hlay fun page => Iff.rfl
      have hba : (pageAddr (p₂.withDriver p₂.driver.called) path 0).range = arena'.va := by rw [pageAddr_eq ha']
      have hcall : (p₂.driver.cudaSetDevice S).2 = p₂.driver.called := rfl
      rw [hcall, hba, heqc]
      cases r with
      | noHost => exact absurd rfl hhost
      | failed =>
        obtain ⟨hr', hmvs', hshw'⟩ := hrollback p₃ hr hmvs hshw
        exact ⟨none, _, rfl, hr', hmvs', hshw', nofun⟩
      | done =>
        have hfil := (hdone rfl).of_fades hfad
        refine ⟨some _, p₃, rfl, hr, hfad.toMoves.trans hmvs, ?_, ?_⟩
        · intro m gs hgs hs page
          by_cases hnew : m = path ∧ page ∈ newly
          · obtain ⟨rfl, hp⟩ := hnew
            rw [hgs rfl]
            exact hfil.shows page hp
          · exact hshw m gs page hgs hnew (hfad.showsAt (hs page))
        · intro n hn
          have hgran : (p₂.withDriver p₂.driver.called).granularity = p.granularity := hl'.granularity.trans hfad.granularity
          rw [hgran] at heqc
          refine ⟨newly, hfil, fun page => ?_, ?_, fun page hpg => ?_, p₂.withDriver p₂.driver.called,
            hl'.memory.trans hfad.memory, by rw [hba, heqc]⟩
          · rw [hl.mem_newly, List.mem_range, hno, arenaPages_congr hfad.shapes]
          · rw [← some.inj hn, ← hgran]
          · rw [hext]
            refine hl.resident page (List.mem_range.2 ?_)
            rwa [arenaPages_congr hfad.shapes]
    · rw [Bool.not_eq_true] at hset
      simp only [hset, Bool.not_false, if_true]
      obtain ⟨hr', hmvs', hshw'⟩ := hrollback _ hl'.reached hl'.toMoves fun m gs page _ hne hs => hl'.showsAt hne hs
      exact ⟨none, _, rfl, hr', hmvs', hshw', nofun⟩

theorem goes_loadIntoPool (path : String) (groups : List PlacedGroup) (packedBytes : Nat) (disableReuse : Bool) (p : Pool) :
    Goes S p (loadIntoPool S path groups packedBytes disableReuse p).2 := by
  have hcln : Goes S p (p.cleanKV S) := (Goes.refl p).call .cleanKV rfl
  have hdrop : Goes S p (if disableReuse then (p.cleanKV S).dropStableWeight path false else p.cleanKV S) := by
    split
    · exact hcln.call (.dropStableWeight path false) (by simp [step])
    · exact hcln
  unfold loadIntoPool
  simp only
  have hmap := hdrop.call (.mapStableWeight path [path]) rfl
  generalize (if disableReuse = true then (p.cleanKV S).dropStableWeight path false else p.cleanKV S) = q at hmap ⊢
  obtain ⟨r, p₂, heq⟩ : ∃ r p₂, q.mapStableWeight S path [path] = (r, p₂) := ⟨_, _, rfl⟩
  simp only [heq] at hmap ⊢
  cases r with
  | none => exact hmap
  | some missing =>
    have hset : Goes S p (p₂.withDriver (p₂.driver.cudaSetDevice S).2) := hmap.write _ rfl rfl
    simp only
    split
    · exact hset.call (.rollbackStablePages path missing) rfl
    · have hcopy := hset.copy S .memcpy (pageAddr (p₂.withDriver (p₂.driver.cudaSetDevice S).2) path 0).range
        (copyUnits (p₂.withDriver (p₂.driver.cudaSetDevice S).2).granularity packedBytes groups missing)
      split
      · rename_i heqc
        rwa [heqc] at hcopy
      · rename_i heqc
        rw [heqc] at hcopy
        exact hcopy.call (.rollbackStablePages path missing) rfl

theorem goes_prepareInPool (path : String) (groups : List PlacedGroup) (packedBytes : Nat) (requestedPages : List Nat)
    (p : Pool) : Goes S p (prepareInPool S path groups packedBytes requestedPages p).2 := by
  have hmap : Goes S p (p.mapStablePages S path requestedPages [path]).2 :=
    (Goes.refl p).call (.mapStablePages path requestedPages [path]) rfl
  unfold prepareInPool
  simp only
  obtain ⟨r, p₂, heq⟩ : ∃ r p₂, p.mapStablePages S path requestedPages [path] = (r, p₂) := ⟨_, _, rfl⟩
  simp only [heq] at hmap ⊢
  cases r with
  | none => exact hmap
  | some newly =>
    have hcopy := hmap.copy S .memcpyAsync (p₂.pageAddr path 0).range
      (copyUnits p₂.granularity packedBytes groups (requestedPages.filter fun page => page ∈ newly))
    simp only
    split
    · rename_i heqc
      rwa [heqc] at hcopy
    · rename_i heqc
      rw [heqc] at hcopy
      exact hcopy.call (.rollbackStablePages path newly) rfl
    · rename_i heqc
      rwa [heqc] at hcopy

theorem prepareInPool_spec (requestedPages : List Nat) (h : Reached p) (hlay : Layout packedBytes groups)
    (ha : p.stableWeights.get? path = some arena) :
    ∃ r p', prepareInPool S path groups packedBytes requestedPages p = (r, p') ∧ Reached p' ∧ Moves p p' ∧
      (S.CopiesAsync → ∀ m gs, (m = path → gs = groups) → Shows p m gs → Shows p' m gs) := by
  unfold prepareInPool
  obtain ⟨r, p₂, heq, hfail, hok⟩ := h.mapStablePages S path requestedPages
  simp only
  rw [heq]
  cases r with
  | none =>
    obtain ⟨hr, hfad⟩ := hfail rfl
    exact ⟨none, p₂, rfl, hr, hfad.toMoves, fun _ m gs _ hs => hfad.shows hs⟩
  | some newly =>
    have hl := hok newly rfl
    obtain ⟨arena', ha', hva, -⟩ := get?_of_shapes hl.shapes ha
    obtain ⟨r, p₃, heqc, hhost, hasync, hr, hmvs, hshw, hext, hdone⟩ :=
      hl.copy (requestedPages.filter fun page => page ∈ newly) S .memcpyAsync ha' hlay fun page => by
        simp only [List.mem_filter, decide_eq_true_eq, and_iff_right_iff_imp]
        exact fun hp => ((hl.mem_newly page).1 hp).1
    have hba : (p₂.pageAddr path 0).range = arena'.va := by rw [pageAddr_eq ha']
    simp only
    rw [hba, heqc]
    cases r with
    | noHost => exact absurd rfl hhost
    | failed => exact ⟨none, p₃, rfl, hr, hmvs, fun hS => absurd rfl (hasync hS)⟩
    | done =>
      refine ⟨some _, p₃, rfl, hr, hmvs, ?_⟩
      intro _ m gs hgs hs page
      by_cases hnew : m = path ∧ page ∈ newly
      · obtain ⟨rfl, hp⟩ := hnew
        rw [hgs rfl]
        exact (hdone rfl).shows page hp
      · exact hshw m gs page hgs hnew (hs page)

end ServerlessLLM.Vmm.Pool

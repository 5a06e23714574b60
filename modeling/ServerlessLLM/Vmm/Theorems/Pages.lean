import ServerlessLLM.Vmm.Lemmas.RunOps

/-!
# The pages and the blocks of a pool

What holds of a pool in every run: where its physical pages are, what the driver has mapped in the arenas, and which slots the
KV blocks have.
-/

namespace ServerlessLLM.Vmm.Pool

open Runs List Option Dict Prod Slots

/-!
## The physical pages of a pool

`cuMemMap` may fail in the mapping loop of `MapAtReservedAddress`: then the extent that was acquired for it is neither returned
to `free_extent_ids_` nor recorded in a mapping. No other failure loses an extent.
-/

section

variable {p : Pool}

/-- Every extent is free or held, once, as its flag says; the page counts are those of the extents, and the pool has not been
found inconsistent. -/
structure Conserved (p : Pool) : Prop where
  extents : ∀ id < p.pageCapacity,
    (p.freeExtentIds.count id = 1 ∧ (p.held.map snd).count id = 0 ∧ p.physicalExtents[id]? = some false) ∨
      (p.freeExtentIds.count id = 0 ∧ (p.held.map snd).count id = 1 ∧ p.physicalExtents[id]? = some true)
  bounded : ∀ id ∈ p.freeExtentIds ++ p.held.map snd, id < p.pageCapacity
  used : p.usedPages = p.held.length
  free : p.freePages = p.freeExtentIds.length
  consistent : Fault.poolInconsistent ∉ p.log ∧ Fault.preallocatedPoolInconsistent ∉ p.log

theorem conserved_of_sound (h : Sound p [] []) (hlog : ∀ f ∈ p.log, ∃ c, f = .cuda c) : Conserved p := by
  have hacc := h.accounts
  rw [append_nil, append_nil] at hacc
  refine ⟨fun id hid => hacc.count hid, fun id hid => hacc.lt_of_mem hid, ?_, h.freePages, ?_, ?_⟩
  · rw [h.used, append_nil]
  · intro hf
    obtain ⟨c, hc⟩ := hlog _ hf
    cases hc
  · intro hf
    obtain ⟨c, hc⟩ := hlog _ hf
    cases hc

/-- In a run in which no `cuMemMap` of `MapAtReservedAddress` fails, every page stays free or held. -/
theorem pages_conserved {native requested capacity : Nat} {memory : Handle → Nat → UInt8}
    (hp : create native requested capacity memory = some p) {cs : List (Surroundings × Op)}
    (hcs : EachStep step (fun _ c => c.1.MapsExtents ∧ c.2.Protects) p cs) : Throughout step Conserved p cs := by
  obtain ⟨hsnd, hk, hlog, -⟩ := create_spec hp
  let I : Pool → Prop := fun p => Sound p [] [] ∧ KVArena p ∧ ∀ f ∈ p.log, ∃ c, f = .cuda c
  have hinit : I p := ⟨hsnd, hk, by simp [hlog]⟩
  have hrun : Throughout step I p cs := by
    refine throughout_of_eachStep ?_ hinit hcs
    rintro q c q' ⟨hs, hq, hl⟩ ⟨hmaps, hprotects⟩ hst
    have hsp := step_spec hs hq hst
    obtain ⟨lost', hs', hlost⟩ := hsp.sound
    obtain rfl := hlost hmaps
    refine ⟨hs', hsp.arena, ?_⟩
    intro f hf
    rcases hsp.log hmaps rfl hprotects f hf with hf | hf
    · exact hl f hf
    · exact hf
  exact hrun.mono fun q hq => conserved_of_sound hq.1 hq.2.2

def ofPages (pages : Nat) : Pool := (create 1 0 pages fun _ _ => 0).getD
  ⟨1, Nat.one_pos, 0, 0, 0, [], [], .empty, .empty, .empty, .empty, 0, 0, [], .empty, [], ⟨0, 0, 0, .empty, fun _ _ => 0⟩, []⟩

theorem create_ofPages_four : create 1 0 4 (fun _ _ => 0) = some (ofPages 4) := rfl

/-- A model whose pages are mapped at the second attempt, and a KV block. -/
def fillPool : List (Surroundings × Op) :=
  [(.reliable, .reserveStableWeight "a" 2 1), (.failing .accessPage, .mapStableWeight "a" ["a"]),
    (.reliable, .mapStableWeight "a" ["a"]), (.reliable, .allocateKVBlocks 1 [0] ["a"])]

theorem pages_conserved_fillPool : Throughout step Conserved (ofPages 4) fillPool := by
  refine pages_conserved create_ofPages_four ?_
  refine ⟨⟨fun _ => rfl, trivial⟩, fun _ _ => ⟨⟨fun _ => rfl, mem_singleton_self _⟩, ?_⟩⟩
  intro _ _
  exact ⟨⟨fun _ => rfl, mem_singleton_self _⟩, fun _ _ => ⟨⟨fun _ => rfl, trivial⟩, fun _ _ => trivial⟩⟩

/-- When `cuMemMap` fails for the block, a page is neither free nor held. -/
theorem page_lost : ¬Throughout step Conserved (ofPages 4) [(.failing .mapExtent, .allocateKVBlocks 1 [0] [])] := by
  intro h
  have hfe := (h.2 _ rfl).free
  revert hfe
  decide

end

/-!
## Alias pages and resident pages

While a binding is open, its alias pages fill the pages of the arena that are not resident. They stay apart from the resident
pages, since `cuMemMap` fails on a page that is mapped.
-/

section

variable {p : Pool} {model : String} {lost : List Nat}

/-- What the driver should have mapped at a page of a model's arena. -/
def handleAt (p : Pool) (model : String) (page : Nat) : Option Handle :=
  match p.extentOf model page with
  | some id => some (.extent id)
  | none => (p.bindingAliases.get? model).bind fun aliases => if page ∈ aliases.pages then some aliases.handle else none

/-- The driver has mapped the resident pages and the alias pages of the model, and these are apart; no two pages share an
extent. -/
structure MapsArena (p : Pool) (model : String) : Prop where
  mapped : ∀ page, p.driver.mapped.get? (p.pageAddr model page) = p.handleAt model page
  apart : ∀ aliases ∈ p.bindingAliases.get? model, ∀ page ∈ aliases.pages, p.extentOf model page = none
  own : ∀ model' page page' id, p.extentOf model page = some id → p.extentOf model' page' = some id →
    model = model' ∧ page = page'

/-- `EndStableBinding` leaves the resident pages of every model as they are, and nothing else mapped in the arena of its model.
-/
def EndsCleanly (p : Pool) (model : String) : Prop :=
  let p' := (p.endStableBinding model).2
  (∀ m page, p'.extentOf m page = p.extentOf m page) ∧
    ∀ page, p'.driver.mapped.get? (p.pageAddr model page) = (p.extentOf model page).map Handle.extent

theorem mapsArena (h : Sound p [] lost) (hm : model ∈ p.stableWeights.keys) : MapsArena p model := by
  obtain ⟨arena, ha⟩ := mem_keys_iff.1 hm
  refine ⟨?_, ?_, fun _ _ _ _ hid hid' => h.extent_inj hid hid'⟩
  · intro page
    refine ext ?_
    intro handle
    rw [pageAddr_eq ha, h.mapped_arena ha]
    unfold handleAt
    cases hext : p.extentOf model page with
    | some id =>
      constructor
      · rintro (⟨id', hid', rfl⟩ | ⟨aliases, hali, hpg, -⟩)
        · exact congrArg (fun i => some (Handle.extent i)) (some.inj hid')
        · exact absurd hpg (h.not_aliased ha hext hali)
      · intro heq
        exact .inl ⟨id, rfl, (some.inj heq).symm⟩
    | none =>
      simp only [bind_eq_some_iff, ite_none_right_eq_some, some.injEq]
      constructor
      · rintro (⟨id', hid', -⟩ | ⟨aliases, hali, hpg, rfl⟩)
        · cases hid'
        · exact ⟨aliases, hali, hpg, rfl⟩
      · rintro ⟨aliases, hali, hpg, rfl⟩
        exact .inr ⟨aliases, hali, hpg, rfl⟩
  · intro aliases hali page hpg
    by_contra hso
    obtain ⟨id, hid⟩ := ne_none_iff_exists'.1 hso
    exact h.not_aliased ha hid hali hpg

theorem endsCleanly (h : Sound p [] lost) (hm : model ∈ p.stableWeights.keys) : EndsCleanly p model := by
  obtain ⟨-, -, -, hstb, hks⟩ := endStableBinding_tables p model
  have hext : ∀ m page, (p.endStableBinding model).2.extentOf m page = p.extentOf m page := by
    intro m page
    unfold extentOf
    rw [hstb]
  refine ⟨hext, ?_⟩
  intro page
  have hm' : model ∈ (p.endStableBinding model).2.stableWeights.keys := by rwa [hstb]
  have hmpd := (mapsArena (h.endStableBinding model) hm').mapped page
  have hno : (p.endStableBinding model).2.bindingAliases.get? model = none := by
    rw [get?_eq_none_iff]
    exact fun hin => (hks model hin).2 hm rfl
  have haddr : (p.endStableBinding model).2.pageAddr model page = p.pageAddr model page := by
    unfold pageAddr
    rw [hstb]
  rw [haddr] at hmpd
  rw [hmpd]
  unfold handleAt
  rw [hext, hno]
  cases p.extentOf model page with
  | some id => rfl
  | none => rfl

/-- In every run the driver has mapped in each arena the resident pages and, apart from these, the alias pages of an open
binding; to close a binding leaves exactly the resident pages. -/
theorem bindings_never_shadow {native requested capacity : Nat} {memory : Handle → Nat → UInt8}
    (hp : create native requested capacity memory = some p) (cs : List (Surroundings × Op)) :
    Throughout step (fun q => ∀ model ∈ q.stableWeights.keys, MapsArena q model ∧ EndsCleanly q model) p cs := by
  obtain ⟨hsnd, hk, -⟩ := create_spec hp
  exact (throughout_reached ⟨⟨[], hsnd⟩, hk⟩ cs).mono fun q ⟨⟨_, hs⟩, _⟩ model hm => ⟨mapsArena hs hm, endsCleanly hs hm⟩

/-- A binding is opened on a model with one resident page; the pages under it cannot be mapped until it is closed. -/
def bindModel : List (Surroundings × Op) :=
  [(.reliable, .reserveStableWeight "a" 3 1), (.reliable, .mapStablePages "a" [1] ["a"]), (.reliable, .beginStableBinding "a"),
    (.reliable, .mapStablePages "a" [0, 1] ["a"]), (.reliable, .retainStablePages "a" []), (.reliable, .endStableBinding "a")]

theorem bindings_never_shadow_bindModel :
    Throughout step (fun q => ∀ model ∈ q.stableWeights.keys, MapsArena q model ∧ EndsCleanly q model) (ofPages 4) bindModel :=
  bindings_never_shadow create_ofPages_four bindModel

end

/-!
## The KV arena of a pool

The slots, the live blocks and the offsets that were returned agree in every state, whatever driver calls fail. Blocks of one
size lie at the multiples of their length, so that a first fit finds a slot as long as there are pages.
-/

section

variable {p p' : Pool} {lost : List Nat} {blockSize : Nat}

/-- The slots in use are those of the live blocks, and the blocks are apart and inside the arena. -/
structure SlotsMatch (p : Pool) : Prop where
  slots : ∀ i < p.pageCapacity, ∃ used, p.kvVaSlots[i]? = some used ∧
    (used = true ↔ ∃ e ∈ p.kvBlocks.entries, Within (p.blockSlots e.2) i)
  apart : p.kvBlocks.entries.Pairwise fun e e' => ∀ i, ¬(Within (p.blockSlots e.2) i ∧ Within (p.blockSlots e'.2) i)
  inside : ∀ e ∈ p.kvBlocks.entries, e.2.va.range = p.kvVaBase ∧ (p.blockSlots e.2).1 + (p.blockSlots e.2).2 ≤ p.pageCapacity
  pages : ∀ e ∈ p.kvBlocks.entries, (p.blockSlots e.2).2 = p.pagesFor e.2.logicalBytes

theorem slotsMatch (h : Sound p [] lost) (hk : KVArena p) : SlotsMatch p where
  slots i hi := by
    have hlt : i < p.kvVaSlots.length := by rwa [hk.slots]
    refine ⟨p.kvVaSlots[i], List.getElem?_eq_getElem hlt, ?_⟩
    have hiff := hk.covers.getD_eq_true_iff (i := i)
    rw [getD_eq_getElem _ _ hlt] at hiff
    rw [hiff]
    constructor
    · rintro ⟨b, hb, hw⟩
      obtain ⟨e, he, rfl⟩ := mem_map.1 hb
      exact ⟨e, he, hw⟩
    · rintro ⟨e, he, hw⟩
      exact ⟨_, mem_map_of_mem he, hw⟩
  apart := pairwise_map.1 hk.covers.pairwise
  inside e he := by
    refine ⟨h.kvRange e he, ?_⟩
    have hle := hk.covers.inside _ (mem_map_of_mem (f := fun e => p.blockSlots e.2) he)
    rwa [hk.slots] at hle
  pages e he := mappedBytes_div (hk.blocks e he)

/-- A live block keeps its offset in a call that does not release it. -/
def KeepsOffsets (p : Pool) (c : Surroundings × Op) : Prop :=
  ∀ id offset, p.offsetOf id = some offset → c.2.releases id = false → ∀ p' ∈ p.step c, p'.offsetOf id = some offset

/-- `AllocateKVBlocks` returns the offsets of the blocks, or it leaves the blocks and the slots as they are. -/
def Answers (p : Pool) (c : Surroundings × Op) : Prop :=
  ∀ size ids protectedFps, c.2 = .allocateKVBlocks size ids protectedFps →
    match p.allocateKVBlocks c.1 size ids protectedFps with
    | (.ok offsets, p') => offsets.map some = ids.map p'.offsetOf
    | (.error _, p') => p'.kvBlocks = p.kvBlocks ∧ p'.kvVaSlots = p.kvVaSlots

/-- `AllocateKVBlocks` does not fail for want of a free slot. -/
def FindsSlot (p : Pool) (c : Surroundings × Op) : Prop :=
  ∀ size ids protectedFps, c.2 = .allocateKVBlocks size ids protectedFps →
    (p.allocateKVBlocks c.1 size ids protectedFps).1 ≠ .error .noFreeSlot

theorem keepsOffsets (h : Sound p [] lost) (hk : KVArena p) (c : Surroundings × Op) : KeepsOffsets p c := by
  intro id offset hoff hreleases p' hst
  obtain ⟨a, ha, rfl⟩ := map_eq_some_iff.1 hoff
  obtain ⟨hg, hbks⟩ := step_blocks h hk hst
  have ha' : p'.kvBlocks.get? id = some a := by
    rcases hbks with ⟨size, ids, protectedFps, hop⟩ | hbks
    · obtain ⟨S, op⟩ := c
      obtain rfl : op = _ := hop
      cases hst
      obtain ⟨r, q, heq, -, herr, hok⟩ := allocateKVBlocks_spec S size ids protectedFps h hk
      rw [heq]
      cases r with
      | error e => rwa [(herr e rfl).1]
      | ok offsets => exact (hok offsets rfl).2.1 id a ha
    · refine mem_entries_iff.1 ?_
      rw [hbks, mem_filter]
      exact ⟨mem_entries_iff.2 ha, by simp [hreleases]⟩
  unfold offsetOf
  rw [ha', hg]
  rfl

theorem answers (h : Sound p [] lost) (hk : KVArena p) (c : Surroundings × Op) : Answers p c := by
  intro size ids protectedFps _
  obtain ⟨r, p', heq, -, herr, hok⟩ := allocateKVBlocks_spec c.1 size ids protectedFps h hk
  rw [heq]
  cases r with
  | error e => exact herr e rfl
  | ok offsets => exact (hok offsets rfl).1

theorem step_uniform {c : Surroundings × Op} (h : Sound p [] lost) (hk : KVArena p) (hu : Uniform blockSize p)
    (hsz : ∀ size ids protectedFps, c.2 = .allocateKVBlocks size ids protectedFps → size = blockSize) :
    (∀ p' ∈ p.step c, Uniform blockSize p') ∧ FindsSlot p c := by
  constructor
  · intro p' hst
    obtain ⟨hg, hbks⟩ := step_blocks h hk hst
    rcases hbks with ⟨size, ids, protectedFps, hop⟩ | hbks
    · obtain rfl := hsz _ _ _ hop
      obtain ⟨S, op⟩ := c
      obtain rfl : op = _ := hop
      cases hst
      unfold allocateKVBlocks
      split
      · exact hu
      · rename_i hne
        exact (hu.allocateKVBlocksLoop h hk (Nat.pos_of_ne_zero hne) ids [] []).1
    · refine hu.of_subset hg ?_
      intro e he
      rw [hbks] at he
      exact (mem_filter.1 he).1
  · intro size ids protectedFps hop
    obtain rfl := hsz _ _ _ hop
    unfold allocateKVBlocks
    split
    · simp
    · rename_i hne
      exact (hu.allocateKVBlocksLoop h hk (Nat.pos_of_ne_zero hne) ids [] []).2

/-- In every run the slots match the blocks, blocks keep their offsets, and `AllocateKVBlocks` returns the offsets of the blocks
or changes none; and when all blocks have one size, it always finds a slot. -/
theorem kv_arena {native requested capacity : Nat} {memory : Handle → Nat → UInt8}
    (hp : create native requested capacity memory = some p)
    (cs : List (Surroundings × Op)) :
    Throughout step SlotsMatch p cs ∧ EachStep step (fun q c => KeepsOffsets q c ∧ Answers q c) p cs ∧
      ∀ blockSize, (∀ c ∈ cs, ∀ size ids protectedFps, c.2 = .allocateKVBlocks size ids protectedFps → size = blockSize) →
        EachStep step FindsSlot p cs := by
  obtain ⟨hsnd, hk, -, -, -, hbks⟩ := create_spec hp
  have hinit : Reached p := ⟨⟨[], hsnd⟩, hk⟩
  refine ⟨?_, ?_, ?_⟩
  · exact (throughout_reached hinit cs).mono fun q ⟨⟨_, hs⟩, hq⟩ => slotsMatch hs hq
  · exact eachStep_of_invariant (fun q c q' hq hst => hq.step hst)
      (fun q c ⟨⟨_, hs⟩, hq⟩ => ⟨keepsOffsets hs hq c, answers hs hq c⟩) hinit
  · intro blockSize hsz
    have huni : Uniform blockSize p := by
      intro e he
      rw [hbks] at he
      cases he
    refine eachStep_of_invariant_mem (I := fun q => Reached q ∧ Uniform blockSize q) ?_ ?_ ⟨hinit, huni⟩
    · rintro c hc q q' ⟨hq, hu⟩ hst
      obtain ⟨lost, hs⟩ := hq.1
      exact ⟨hq.step hst, (step_uniform hs hq.2 hu (hsz c hc)).1 q' hst⟩
    · rintro c hc q ⟨⟨⟨lost, hs⟩, hk⟩, hu⟩
      exact (step_uniform hs hk hu (hsz c hc)).2

/-- Blocks of two pages are allocated and released, and a mapping fails. -/
def reuseBlocks : List (Surroundings × Op) :=
  [(.reliable, .allocateKVBlocks 2 [0, 1] []), (.reliable, .releaseKVBlocks [0]),
    (.failing .accessExtents, .allocateKVBlocks 2 [2] []),
    (.reliable, .allocateKVBlocks 2 [2] [])]

theorem kv_arena_reuseBlocks :
    Throughout step SlotsMatch (ofPages 4) reuseBlocks ∧ EachStep step FindsSlot (ofPages 4) reuseBlocks := by
  have h := kv_arena create_ofPages_four reuseBlocks
  refine ⟨h.1, h.2.2 2 ?_⟩
  intro c hc size ids protectedFps hop
  simp only [reuseBlocks, mem_cons, not_mem_nil, or_false] at hc
  rcases hc with rfl | rfl | rfl | rfl <;> cases hop <;> rfl

end

end ServerlessLLM.Vmm.Pool

import ServerlessLLM.Vmm.Lemmas.ManagerOps

/-!
# The bytes of resident pages

`PrepareLayerWeavePages` leaves the new pages mapped when `cudaMemcpyAsync` fails, and later loads count them as cached.
-/

namespace ServerlessLLM.Vmm.VmmVRAMManager

open Pool Runs Option

variable {M : VmmVRAMManager}

/-- Where a page of a model is resident, the bytes of the tensor groups show. -/
def HoldsBytes (M : VmmVRAMManager) : Prop :=
  ∀ device p path model, M.pools.get? device = some p → M.models.get? path = some model →
    ∀ g ∈ M.groupsOf path model, ∀ x, g.Has x →
    p.extentOf path (x / p.granularity) ≠ none →
      ∃ host, g.host = some host ∧ p.driver.byteAt p.granularity (p.pageAddr path 0).range x = some (host (x - g.offset))

theorem holdsBytes (h : Kept M) (hs : ShowsAll M) : HoldsBytes M := by
  intro device p path model hp hmod g hg x hx hres
  obtain ⟨packedBytes, hreg, hars⟩ := h.models path model hmod
  obtain ⟨arena, ha, -⟩ := hars device p hp
  obtain ⟨⟨⟨lost, hsnd⟩, -⟩, -⟩ := h.pools device p hp
  obtain ⟨id, hid⟩ := ne_none_iff_exists'.1 hres
  have hlay := hreg.layout.1
  obtain ⟨host, hhost⟩ := ne_none_iff_exists'.1 (hlay.hosts g hg)
  refine ⟨host, hhost, ?_⟩
  have hmpd : p.driver.mapped.get? ⟨(p.pageAddr path 0).range, x / p.granularity⟩ = some (.extent id) := by
    rw [pageAddr_eq ha]
    exact (hsnd.mapped_arena ha).2 (.inl ⟨id, hid, rfl⟩)
  unfold Driver.byteAt
  rw [hmpd, map_some, hs device p path model hp hmod _ id hid x rfl ⟨g, hg, hx⟩, hlay.wanted_eq hg hx hhost]

/-- In a run in which no `cudaMemcpyAsync` fails, resident pages hold the bytes of their model, whatever else fails. -/
theorem resident_pages_hold_bytes {native : ℤ → Nat} {memory : ℤ → Handle → Nat → UInt8}
    {poolSize requested : Nat} {gpuIds : List ℤ}
    (hM : create native memory poolSize gpuIds requested = some M) {cs : List (Outside × Op)}
    (hcs : EachStep step (fun _ c => c.1.CopiesAsync) M cs) : Throughout step HoldsBytes M cs := by
  obtain ⟨hkept, hshw, -⟩ := create_spec hM
  exact (throughout_shows hkept hshw hcs).mono fun M h => holdsBytes h.1 h.2.1

/-- A manager of one GPU, with pages of one byte. -/
def ofPages (pages : Nat) : VmmVRAMManager :=
  (create (fun _ => 1) (fun _ _ _ => 0) pages [0] 0).getD ⟨.empty, .empty, .empty, .empty, .empty, 0, 0, 0,
    .empty, .empty, .empty⟩

theorem create_ofPages_four : create (fun _ => 1) (fun _ _ _ => 0) 4 [0] 0 = some (ofPages 4) := rfl

def registerPair : Outside × Op :=
  (.reliable, .registerModel "a" 1 (-1) [⟨0, 2, "g", [⟨"t", 0, 2⟩]⟩] [⟨2, fun i => if i = 0 then 7 else 8⟩])

/-- The first page of the model is prepared, and all of it is loaded at the second attempt. -/
def loadPair : List (Outside × Op) :=
  [registerPair, (.reliable, .prepareLayerWeavePages "a" 0 [0]), (.failing .memcpy, .loadModel "a" 0 false),
    (.reliable, .loadModel "a" 0 false)]

theorem resident_pages_hold_bytes_loadPair : Throughout step HoldsBytes (ofPages 4) loadPair := by
  refine resident_pages_hold_bytes create_ofPages_four ?_
  refine ⟨fun _ _ => rfl, fun _ _ => ⟨fun _ _ => rfl, fun _ _ => ⟨fun _ _ => rfl, ?_⟩⟩⟩
  intro _ _
  exact ⟨fun _ _ => rfl, fun _ _ => trivial⟩

/-- After a failed `cudaMemcpyAsync` the page is resident and shows what was there before. -/
theorem stale_page : ¬Throughout step HoldsBytes (ofPages 4)
    [registerPair, (.failing .memcpyAsync, .prepareLayerWeavePages "a" 0 [0])] := by
  intro h
  have hla := (h.2 _ rfl).2 _ rfl
  obtain ⟨host, hhost, hbyte⟩ := hla 0 _ "a" _ rfl rfl _ (List.mem_of_mem_head? rfl) 0 (by decide) (by decide)
  cases hhost
  revert hbyte
  decide

end ServerlessLLM.Vmm.VmmVRAMManager

import BharatOS.Mm.Conservation

/-!
# The zone of a block

The zone is looked at when a block is taken from the lists of a node. A single page that
comes from the cache of the core is given out as it is, and the cache was filled without
regard to a zone.
-/

namespace BharatOS

namespace PmmSystem

variable {s : PmmSystem}

/-- The single pages that the core gets at without a look at the zone, in its caches, in its
inbox and in the lists of order 0, are all in the zone. -/
def SinglesInZone (s : PmmSystem) (core : Nat) (zone : PmmZone) : Prop :=
  (∀ n, ∀ phys ∈ s.pmm.nodeCaches (core, n) ++ s.pmm.inbox core, ∀ page ∈ s.pmm.physToPage phys,
      (s.pmm.pages page).zone.rank ≤ zone.rank) ∧
    ∀ n c, ∀ i ∈ s.pmm.freeList (n, 0, c), (s.pmm.pages (n, i)).zone.rank ≤ zone.rank

/-- The request is not one for a single low page by a core that has a cache, or there are only
low pages to be had that way. `PMM_ZONE_ANY`, which asks for no zone, is the least number. -/
def LooksAtZone (s : PmmSystem) (core order : Nat) (zone : PmmZone) : Prop :=
  zone ≠ .any ∧ (order = 0 → core < s.pmm.maxCpus → zone = .dma32 → s.SinglesInZone core zone)

theorem SinglesInZone.singles {lay : Layout} {core : Nat} {zone : PmmZone}
    (h : s.SinglesInZone core zone) (layout : s.pmm.layout = lay) :
    s.pmm.Singles lay core (lay.AtMost zone) := by
  subst layout
  refine ⟨fun ⟨c, n⟩ phys there own page leads => ?_, fun c phys there own page leads => ?_,
    fun ⟨n, order, c⟩ i there single => ?_⟩
  · obtain rfl : c = core := own
    exact h.1 n phys (List.mem_append_left _ there) page leads
  · subst own
    exact h.1 0 phys (List.mem_append_right _ there) page leads
  · obtain rfl : order = 0 := single
    exact h.2 n c i there

/-- In every state that calls lead to: each page of the block that `pmm_alloc_pages_ex` gives
has a zone that is not above the one that was asked for. -/
theorem zone_honoured {maxCpus core currentNode order : Nat} {zone : PmmZone} {pinned : Bool}
    {t : Pmm} {block : PmmBlock} (run : Run Steps (fun _ _ => True) (boot maxCpus) s)
    (looks : s.LooksAtZone core order zone)
    (given : s.pmm.pmmAllocPagesEx core currentNode order zone pinned = some (t, some block)) :
    ∃ n i, t.physToPage block.physAddr = some (n, i) ∧
      ∀ k < 2 ^ order, (t.pages (n, i + k)).zone.rank ≤ zone.rank := by
  obtain ⟨lay, S⟩ := sound_run run
  obtain ⟨t', given', called, answer⟩ :=
    @S.ledger.pmmAllocPagesEx lay s.pmm s.held _ core order currentNode zone pinned
  rw [given] at called
  cases called
  rcases answer with ⟨none', -⟩ | ⟨phys, n, i, same, leads, fits, L, -, -, -, inZone⟩
  · cases none'
  cases same
  have pages : ∀ page, (t.pages page).zone = lay.zone page := fun page => by rw [← L.layout]; rfl
  refine ⟨n, i, L.finds leads, fun k small => ?_⟩
  rw [pages]
  by_cases low : zone = .dma32
  · have looked : order ≠ 0 ∨ lay.maxCpus ≤ core ∨ s.pmm.Singles lay core (lay.AtMost zone) := by
      by_cases single : order = 0
      · by_cases cache : core < s.pmm.maxCpus
        · exact .inr (.inr ((looks.2 single cache low).singles S.ledger.layout))
        · exact .inr (.inl (S.ledger.layout ▸ Nat.not_lt.mp cache))
      · exact .inl single
    exact (inZone looked).resolve_left looks.1 k small
  -- no page has a zone above the normal one
  have least : PmmZone.normal.rank ≤ zone.rank := by
    have some' := looks.1
    cases zone with
    | any => exact absurd rfl some'
    | dma32 => exact absurd rfl low
    | normal => exact Nat.le_refl _
    | highmem => decide
  have inside : i + k < lay.totalPages n :=
    Nat.lt_of_lt_of_le (Nat.add_lt_add_left small i) fits.inside
  exact Nat.le_trans (S.zones n fits.node (i + k) inside) least

/-- Pages above the first four gigabytes: all of them in the normal zone. -/
def eightHighPages : List PmmAction :=
  .addRegion 0x100000000 0x8000 ⟨0, 0xFFFFFFFF⟩ ::
    (List.range 8).map fun i => .release 0 (0x100000000 + i * pageSize)

/-- What a request gets: the zone of the page, and whether there was one. -/
def zoneGiven (s : PmmSystem) (core order : Nat) (zone : PmmZone) : Option PmmZone :=
  match s.pmm.pmmAllocPagesEx core 0 order zone false with
  | some (t, some block) => (t.physToPage block.physAddr).map fun page => (t.pages page).zone
  | _ => none

/-- A request for a single low page. The first node has high pages only and the second one low
pages, each of them in one block. -/
theorem zone_honoured_low : ∃ s t block, Run Steps (fun _ _ => True) (boot 2) s ∧
    s.LooksAtZone 0 0 .dma32 ∧ s.pmm.pmmAllocPagesEx 0 0 0 .dma32 false = some (t, some block) ∧
    ∃ n i, t.physToPage block.physAddr = some (n, i) ∧
      ∀ k < 2 ^ 0, (t.pages (n, i + k)).zone.rank ≤ PmmZone.dma32.rank := by
  obtain ⟨s, went, caches, inbox, lists, ⟨t, given⟩, called, found⟩ :
      ∃ s, exec step (boot 2) (eightHighPages ++ eightPages) = some s ∧
      (∀ n < maxNumaNodes, s.pmm.nodeCaches (0, n) = []) ∧ s.pmm.inbox 0 = [] ∧
      (∀ n < maxNumaNodes, ∀ c < cacheColors, s.pmm.freeList (n, 0, c) = []) ∧
      ∃ out, s.pmm.pmmAllocPagesEx 0 0 0 .dma32 false = some out ∧ out.2.isSome := by
    decide +kernel
  obtain ⟨block, rfl⟩ := Option.isSome_iff_exists.mp found
  have run := run_of_exec went
  obtain ⟨lay, S⟩ := sound_run run
  have looks : s.LooksAtZone 0 0 .dma32 := by
    refine ⟨(fun e => by cases e), fun _ _ _ => ⟨fun n phys there => ?_, fun n c i there => ?_⟩⟩
    · rw [inbox, List.append_nil] at there
      obtain ⟨-, i, -, fits, -⟩ := S.ledger.caches 0 n phys there
      rw [caches n (Nat.lt_of_lt_of_le fits.node S.ledger.nodes)] at there
      cases there
    · obtain ⟨fits, color, -⟩ := S.ledger.free n 0 c i there
      rw [lists n (Nat.lt_of_lt_of_le fits.node S.ledger.nodes) c
        (color ▸ Nat.mod_lt _ (by decide))] at there
      cases there
  exact ⟨s, t, block, run, looks, called, zone_honoured run looks called⟩

/-- A page was allocated, which left another one alone in its list. The next request, for
the low zone, fills the cache with that page and gets it. -/
theorem low_request_gets_high_page : ∃ s t block, Run Steps (fun _ _ => True) (boot 2) s ∧
    s.pmm.pmmAllocPagesEx 0 0 0 .dma32 false = some (t, some block) ∧
    ∃ n i, t.physToPage block.physAddr = some (n, i) ∧
      ¬ (t.pages (n, i)).zone.rank ≤ PmmZone.dma32.rank := by
  have ran : (exec step (boot 2) (eightHighPages ++
      [.alloc 0 0 0 0 none .any true false])).bind (fun s => s.zoneGiven 0 0 .dma32) =
      some .normal := by decide +kernel
  obtain ⟨s, went, given⟩ := Option.bind_eq_some_iff.mp ran
  have run := run_of_exec went
  unfold zoneGiven at given
  split at given
  · rename_i t block called
    obtain ⟨⟨n, i⟩, leads, zone⟩ := Option.map_eq_some_iff.mp given
    refine ⟨s, t, block, run, called, n, i, leads, ?_⟩
    rw [zone]
    decide
  · cases given

end PmmSystem

end BharatOS

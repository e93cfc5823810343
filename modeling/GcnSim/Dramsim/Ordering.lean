import GcnSim.Dramsim.Session

/-!
# Reads in front of writes

A write to an address is only issued when no read of the address is pending any more. With
separate queues a write stays in the write buffer as long as there is such a read. With a
unified queue the requests of an address go through the queues in their order, and
`HasRWDependency` holds the write back.
-/

namespace GcnSim.Dramsim

namespace Controller

variable {cfg : Config} {timing : Timing} {c : Controller}

/-- The kinds of the requests of an address in the order in which they wait: those in the
command queue, then those in the unified queue. -/
def order (cfg : Config) (c : Controller) (a : Nat) : List Bool :=
  ((c.homeQueue cfg a).filter fun e => decide (e.hexAddr = a)).map (·.cmdType.isWrite) ++
    (c.unifiedQueue.filter (atAddr a)).map (·.isWrite)

/-- The reads of an address are in front of its writes. -/
structure Ordered (cfg : Config) (c : Controller) : Prop where
  unified : cfg.unifiedQueue = true → c.readQueue = [] ∧ c.writeBuffer = []
  sorted : cfg.unifiedQueue = true → ∀ a,
    (c.order cfg a).Pairwise fun earlier later => earlier = true → later = true
  split : cfg.unifiedQueue = false → ∀ a, ∀ e ∈ c.homeQueue cfg a, servesFor true a e = true →
    countAddr c.pendingRdQ a = 0

theorem ordered_init (cfg : Config) : Ordered cfg .init where
  unified := fun _ => ⟨rfl, rfl⟩
  sorted := fun _ _ => .nil
  split := fun _ _ _ h => (List.not_mem_nil h).elim

/-- A write that waits is pending. -/
theorem Sound.pending_of_mem_order (hs : Sound cfg c) {a : Nat} (h : true ∈ c.order cfg a) :
    0 < countAddr c.pendingWrQ a := by
  have hsingle := hs.single true a
  have hpos : 0 < c.waiting.countP (isFor true a) +
      (c.homeQueue cfg a).countP (servesFor true a) := by
    rcases List.mem_append.mp h with h | h
    · obtain ⟨e, he, hwrite⟩ := List.mem_map.mp h
      obtain ⟨hmem, haddr⟩ := List.mem_filter.mp he
      have := List.countP_pos_iff.mpr
        ⟨e, hmem, servesFor_iff.mpr ⟨hwrite, of_decide_eq_true haddr⟩⟩
      omega
    · obtain ⟨t, ht, hwrite⟩ := List.mem_map.mp h
      obtain ⟨hmem, haddr⟩ := List.mem_filter.mp ht
      have hwaiting : t ∈ c.waiting := List.mem_append_left _ (List.mem_append_left _ hmem)
      have := List.countP_pos_iff.mpr
        ⟨t, hwaiting, isFor_iff.mpr ⟨hwrite, of_decide_eq_true haddr⟩⟩
      omega
  split at hsingle
  · assumption
  · omega

/-- A write that may be issued has no read to wait for. -/
theorem Ordered.no_pending_read (ho : Ordered cfg c) (hs : Sound cfg c) {i : Int}
    {before behind : List Command} {cmd : Command}
    (hqueue : c.cmdQueue.queues i = before ++ cmd :: behind)
    (hwrite : cmd.cmdType.isWrite = true)
    (hfree : CommandQueue.hasRwDependency before cmd = false) :
    countAddr c.pendingRdQ cmd.hexAddr = 0 := by
  have hmem : cmd ∈ c.cmdQueue.queues i := by
    rw [hqueue]
    simp
  have hhome : c.homeQueue cfg cmd.hexAddr = before ++ cmd :: behind := by
    rw [(hs.pending_of_entry hmem).2.1, hqueue]
  cases hmode : cfg.unifiedQueue with
  | false =>
    apply ho.split hmode _ cmd _ (servesFor_iff.mpr ⟨hwrite, rfl⟩)
    rw [hhome]
    simp
  | true =>
    by_contra hne
    have hread := hs.single false cmd.hexAddr
    rw [if_pos (show 0 < countAddr (c.pending false) cmd.hexAddr from Nat.pos_of_ne_zero hne)]
      at hread
    have horder := ho.sorted hmode cmd.hexAddr
    rw [order, hhome, List.filter_append,
      List.filter_cons_of_pos (by simp), List.map_append, List.map_cons, hwrite,
      List.pairwise_append, List.pairwise_append, List.pairwise_cons] at horder
    obtain ⟨⟨-, ⟨hbehind, -⟩, -⟩, -, hunified⟩ := horder
    by_cases hin : 0 < (c.homeQueue cfg cmd.hexAddr).countP (servesFor false cmd.hexAddr)
    · -- the read would have to be in front of the write, which then depends on it
      obtain ⟨r, hr, hserves⟩ := List.countP_pos_iff.mp hin
      obtain ⟨hkind, haddr⟩ := servesFor_iff.mp hserves
      rw [hhome] at hr
      rcases List.mem_append.mp hr with hfront | hrest
      · have hqueued : r ∈ c.cmdQueue.queues i := by
          rw [hqueue]
          exact List.mem_append_left _ hfront
        obtain ⟨⟨t, rfl⟩, -⟩ := hs.entry i r hqueued
        obtain ⟨⟨u, rfl⟩, -⟩ := hs.entry i cmd hmem
        have hsame : (transToCommand cfg t).addr = (transToCommand cfg u).addr := by
          change cfg.addressMapping t.addr = cfg.addressMapping u.addr
          exact congrArg _ haddr
        rw [transToCommand_isWrite] at hkind
        rw [CommandQueue.hasRwDependency, List.any_eq_false] at hfree
        apply hfree _ hfront
        rw [transToCommand_isRead, hkind, hsame]
        simp
      · rcases List.mem_cons.mp hrest with rfl | hlater
        · rw [hwrite] at hkind
          cases hkind
        · have hfalse := hbehind false
            (List.mem_map.mpr ⟨r, List.mem_filter.mpr ⟨hlater, by simpa using haddr⟩, hkind⟩) rfl
          cases hfalse
    · obtain ⟨t, ht, hfor⟩ :=
        List.countP_pos_iff.mp (show 0 < c.waiting.countP (isFor false cmd.hexAddr) by omega)
      obtain ⟨hkind, haddr⟩ := isFor_iff.mp hfor
      rw [waiting, (ho.unified hmode).1, (ho.unified hmode).2, List.append_nil,
        List.append_nil] at ht
      have hfalse := hunified true (by simp) false
        (List.mem_map.mpr ⟨t, List.mem_filter.mpr ⟨ht, by simpa [atAddr] using haddr⟩, hkind⟩) rfl
      cases hfalse

section Add

/-- A read is only queued when no write of its address is pending. -/
theorem Ordered.addTransaction (ho : Ordered cfg c) (hs : Sound cfg c) (a : Nat) (w : Bool) :
    Ordered cfg (c.addTransaction cfg a w) := by
  have hnone : countAddr c.pendingWrQ a = 0 → ∀ e ∈ c.homeQueue cfg a,
      ¬ servesFor true a e = true := by
    intro hwr e he hserves
    have hsingle := hs.single true a
    have hpos := List.countP_pos_iff.mpr ⟨e, he, hserves⟩
    change _ = if 0 < countAddr c.pendingWrQ a then 1 else 0 at hsingle
    rw [hwr, if_neg (Nat.lt_irrefl 0)] at hsingle
    omega
  rcases @addTransaction_cases cfg c a w with
    ⟨-, h⟩ | ⟨hwr, -, -, h⟩ | ⟨-, hwr, unified, read, write, hlist, hmode, h⟩
  · rw [h]
    exact ⟨ho.unified, ho.sorted, ho.split⟩
  · rw [h]
    refine ⟨ho.unified, ho.sorted, fun hsplit b e he hserves => ?_⟩
    dsimp only
    rw [countAddr_append, ho.split hsplit b e he hserves, countAddr_singleton, if_neg]
    rintro rfl
    exact hnone hwr e he hserves
  · rw [h]
    refine ⟨fun hu => ?_, fun hu b => ?_, fun hsplit b e he hserves => ?_⟩
    · obtain ⟨hread, hwrite⟩ := hmode hu
      dsimp only
      rw [(ho.unified hu).1, (ho.unified hu).2, hread, hwrite]
      exact ⟨rfl, rfl⟩
    · obtain ⟨hread, hwrite⟩ := hmode hu
      rw [hread, hwrite, List.append_nil, List.append_nil] at hlist
      change (((c.homeQueue cfg b).filter fun e => decide (e.hexAddr = b)).map
        (·.cmdType.isWrite) ++ ((c.unifiedQueue ++ unified).filter (atAddr b)).map
          (·.isWrite)).Pairwise _
      rw [List.filter_append, List.map_append, ← List.append_assoc]
      change (c.order cfg b ++ _).Pairwise _
      rw [List.pairwise_append, hlist]
      refine ⟨ho.sorted hu b, ?_, ?_⟩
      · by_cases hab : a = b
        · rw [List.filter_cons_of_pos (by simpa [atAddr] using hab)]
          exact List.pairwise_singleton _ _
        · rw [List.filter_cons_of_neg (by simpa [atAddr] using hab)]
          exact .nil
      · rintro earlier hearlier later hlater rfl
        obtain ⟨t, ht, rfl⟩ := List.mem_map.mp hlater
        obtain ⟨hmem, haddr⟩ := List.mem_filter.mp ht
        rw [List.mem_singleton] at hmem
        subst hmem
        have hab : a = b := of_decide_eq_true haddr
        have hpos := hs.pending_of_mem_order hearlier
        rw [← hab, hwr] at hpos
        exact (Nat.lt_irrefl 0 hpos).elim
    · have hold := ho.split hsplit b e he hserves
      dsimp only
      rw [countAddr_append, hold, Nat.zero_add]
      cases w
      case true => rfl
      case false =>
        rw [if_neg (by decide), countAddr_singleton, if_neg]
        rintro rfl
        exact hnone hwr e he hserves

end Add

section Move

variable {c' : Controller}

/-- Queues that shrink keep the order. -/
theorem Ordered.of_sublist (ho : Ordered cfg c)
    (hqueues : ∀ i, (c'.cmdQueue.queues i).Sublist (c.cmdQueue.queues i))
    (hunified : c'.unifiedQueue = c.unifiedQueue) (hread : c'.readQueue = c.readQueue)
    (hwrite : c'.writeBuffer = c.writeBuffer)
    (hpending : ∀ a, countAddr c'.pendingRdQ a ≤ countAddr c.pendingRdQ a) :
    Ordered cfg c' where
  unified := by
    rw [hread, hwrite]
    exact ho.unified
  sorted := by
    intro hu a
    refine (ho.sorted hu a).sublist ?_
    rw [order, order, hunified]
    exact (((hqueues _).filter _).map _).append_right _
  split := by
    intro hsplit a e he hserves
    have := ho.split hsplit a e ((hqueues _).subset he) hserves
    have := hpending a
    omega

theorem hasRoom_congr {t t' : Transaction} (h : t.addr = t'.addr) :
    c.hasRoom cfg t = c.hasRoom cfg t' := by
  have hbank : (transToCommand cfg t).bankId = (transToCommand cfg t').bankId := by
    change (cfg.addressMapping t.addr).bankId = (cfg.addressMapping t'.addr).bankId
    rw [h]
  rw [hasRoom, hasRoom, hbank]

theorem homeQueue_moved {t : Transaction} {n : Int} {a : Nat} :
    (moved cfg t n c).homeQueue cfg a = c.homeQueue cfg a ++
      if CommandQueue.getQueueIndex cfg (cfg.addressMapping a).bankId =
        CommandQueue.getQueueIndex cfg (transToCommand cfg t).bankId
      then [transToCommand cfg t] else [] := by
  rw [homeQueue, moved_queues]
  split
  · rfl
  · exact (List.append_nil _).symm

/-- The first request with room goes to the end of its command queue, and no other one of its
address was in front of it. -/
theorem order_moved {t : Transaction} {n : Int} (hunified : cfg.unifiedQueue = true)
    (hfind : (c.queue (c.source cfg)).find? (c.hasRoom cfg) = some t) (a : Nat) :
    (moved cfg t n c).order cfg a = c.order cfg a := by
  have hsource : c.source cfg = .unified := by
    rw [source, if_pos hunified]
  have hrest : (moved cfg t n c).unifiedQueue = c.unifiedQueue.eraseP (c.hasRoom cfg) := by
    rw [moved, hsource]
    rfl
  rw [hsource] at hfind
  obtain ⟨before, behind, hlist, herase, hbefore⟩ := FirstMatch.eraseP_eq_append hfind
  change c.unifiedQueue = _ at hlist
  change c.unifiedQueue.eraseP _ = _ at herase
  rw [order, order, hrest, herase, hlist, homeQueue_moved, List.filter_append,
    List.filter_append, List.filter_append, List.map_append, List.map_append, List.map_append]
  by_cases ha : t.addr = a
  · have hnone : before.filter (atAddr a) = [] := by
      rw [List.filter_eq_nil_iff]
      intro y hy hya
      have hroom := hbefore y hy
      rw [hasRoom_congr ((of_decide_eq_true hya).trans ha.symm)] at hroom
      have hyes : c.hasRoom cfg t = true := List.find?_some hfind
      rw [hyes] at hroom
      cases hroom
    subst ha
    have hhome : CommandQueue.getQueueIndex cfg (cfg.addressMapping t.addr).bankId =
        CommandQueue.getQueueIndex cfg (transToCommand cfg t).bankId := rfl
    rw [if_pos hhome, hnone, List.filter_cons_of_pos (by exact decide_eq_true rfl),
      List.filter_cons_of_pos (by exact decide_eq_true rfl)]
    simp
  · have hkeep : (if CommandQueue.getQueueIndex cfg (cfg.addressMapping a).bankId =
        CommandQueue.getQueueIndex cfg (transToCommand cfg t).bankId
        then [transToCommand cfg t] else []).filter (fun e => decide (e.hexAddr = a)) = [] := by
      split
      · apply List.filter_cons_of_neg
        rw [decide_eq_true_eq]
        exact ha
      · rfl
    rw [hkeep, List.filter_cons_of_neg (by simpa [atAddr] using ha)]
    simp

theorem Ordered.moveTransaction (ho : Ordered cfg c) : Ordered cfg (c.moveTransaction cfg) := by
  rcases @moveTransaction_cases cfg c with h | h | ⟨t, n, hfind, hreads, h⟩
  · rw [h]
    exact ho
  · rw [h]
    exact ⟨ho.unified, ho.sorted, ho.split⟩
  · rw [h]
    have hpending : (moved cfg t n c).pendingRdQ = c.pendingRdQ :=
      congrFun (@moved_frame cfg c t n).2.2.2.1 false
    refine ⟨fun hu => ?_, fun hu a => ?_, fun hsplit a e he hserves => ?_⟩
    · have hsource : c.source cfg = .unified := by
        rw [source, if_pos hu]
      rw [moved, hsource]
      exact ho.unified hu
    · rw [order_moved hu hfind]
      exact ho.sorted hu a
    · rw [hpending]
      rw [homeQueue_moved] at he
      rcases List.mem_append.mp he with he | he
      · exact ho.split hsplit a e he hserves
      · split at he
        · rw [List.mem_singleton] at he
          rw [he, servesFor_iff, transToCommand_isWrite] at hserves
          rw [← hserves.2]
          exact hreads hsplit hserves.1
        · cases he

theorem taken_sublist (q : CommandQueue) (cmd : Command) (i : Int) :
    ((q.taken cfg cmd).queues i).Sublist (q.queues i) := by
  rw [CommandQueue.taken]
  split
  · dsimp only
    rw [Function.update_apply]
    split
    · rename_i hi
      rw [hi]
      exact List.eraseP_sublist
    · exact .refl _
  · exact .refl _

theorem completed_frame {cmd : Command} :
    (c.completed cfg cmd).unifiedQueue = c.unifiedQueue ∧
      (c.completed cfg cmd).readQueue = c.readQueue ∧
      (c.completed cfg cmd).writeBuffer = c.writeBuffer ∧
      ∀ a, countAddr (c.completed cfg cmd).pendingRdQ a ≤ countAddr c.pendingRdQ a := by
  rw [completed]
  split
  · exact ⟨rfl, rfl, rfl, fun a => List.filter_sublist.countP_le⟩
  · split <;> exact ⟨rfl, rfl, rfl, fun a => Nat.le_refl _⟩

/-- Every move keeps the order. -/
theorem Ordered.move (ho : Ordered cfg c) (h : Move cfg timing c c') : Ordered cfg c' := by
  cases h with
  | issueRefresh =>
    obtain ⟨hunified, hread, hwrite, hpending⟩ := @completed_frame cfg _ _
    refine ho.of_sublist (fun i => ?_) hunified hread hwrite hpending
    simp only [issued, completed_cmdQueue]
    split <;> exact .refl _
  | issueQueued =>
    obtain ⟨hunified, hread, hwrite, hpending⟩ := @completed_frame cfg _ _
    refine ho.of_sublist (fun i => ?_) hunified hread hwrite hpending
    simp only [issued, completed_cmdQueue]
    exact taken_sublist _ _ i
  | startRefresh =>
    refine ho.of_sublist (fun i => ?_) rfl rfl rfl fun a => Nat.le_refl _
    dsimp only
    rw [(startRefresh_frame _ _).1]
  | schedule =>
    obtain ⟨n, hn⟩ := @startDraining_frame cfg c
    rw [scheduleTransaction, hn]
    exact Ordered.moveTransaction ⟨ho.unified, ho.sorted, ho.split⟩
  | _ => exact ⟨ho.unified, ho.sorted, ho.split⟩

end Move

end Controller

end GcnSim.Dramsim

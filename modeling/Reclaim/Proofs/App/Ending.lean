import Reclaim.Proofs.App.Filling

/-!
# What scans have still to do

Every part of a scan, and everything that the owner takes, leaves less to be done.  An application
that waits to be measured stands for four turns: its measurement begins and ends, it is sent, and
the owner takes it.  So scans that have begun cannot go on for ever, in whatever order they do.

## Main definitions

* `DiscoveryTurn.isOngoing` : the turns by which scans that have begun go on.
* `ScanStage.remaining`, `Discovery.remaining` : a bound for what is still to be done.

## Main results

* `Discovery.remaining_take_lt` : every such turn leaves less to be done.
* `Discovery.length_le_remaining` : there are no more of them than the bound says.
-/

namespace Reclaim

/-- The scans that have begun go on. -/
def DiscoveryTurn.isOngoing : DiscoveryTurn → Bool
  | .scan _ _ | .receive => true
  | .begin | .remove _ | .change _ => false

/-- A bound for what a scan has still to do and to have done, if `n` applications are listed. -/
def ScanStage.remaining (n : Nat) : ScanStage → Nat
  | begun => 4 * n + 6
  | looked => 4 * n + 5
  | listed records => 4 * records.length + 4
  | offering records => 4 * records.length + 2
  | measuring _ waiting running measured =>
    4 * waiting.length + 3 * running.length + 2 * measured.length + 2
  | refused => 1
  | settling _ | answered _ | completed _ => 0

theorem ScanStage.Goes.remaining_lt {fanout : Nat} {v : Inventory} {d : Disk} {stage : ScanStage}
    {move : ScanMove} (h : stage.Goes fanout v d move) (hsound : d.top.Sound) :
    move.stage.remaining (AppRecord.listedCount v.dir d) + move.sent.length <
      stage.remaining (AppRecord.listedCount v.dir d) := by
  cases h with
  | listed hlist =>
    have hlength := AppRecord.Listed.length_eq hsound ⟨_, hlist⟩
    simp [remaining, hlength]
  | measured hr =>
    have hk := (List.getElem?_eq_some_iff.mp hr).1
    simp only [remaining, List.length_eraseIdx_of_lt hk, List.length_append, List.length_singleton,
      List.length_nil]
    omega
  | sent hm =>
    have hk := (List.getElem?_eq_some_iff.mp hm).1
    simp only [remaining, List.length_eraseIdx_of_lt hk, List.length_singleton]
    omega
  | looked | found | unlisted | offered | finished | left => simp [remaining]
  | started =>
    simp only [remaining, List.length_append, List.length_cons, List.length_nil]
    omega

theorem ScanStage.remaining_hear (n : Nat) (reply : AppReply) (stage : ScanStage) :
    (stage.hear reply).remaining n ≤ stage.remaining n := by
  obtain h | ⟨records, rfl, h | h⟩ | ⟨count, rfl, h⟩ := hear_cases reply stage <;>
    simp [h, remaining]

namespace Discovery

variable {s s' t : Discovery} {turn : DiscoveryTurn} {turns : List DiscoveryTurn}

/-- A bound for what the scans that have begun and the owner have still to do. -/
def remaining (s : Discovery) : Nat :=
  (s.scans.map (ScanStage.remaining (AppRecord.listedCount s.inventory.dir s.disk))).sum +
    s.mailbox.length

/-- With everything that happens less remains. -/
theorem remaining_take_lt (hsound : s.disk.top.Sound) (hongoing : turn.isOngoing = true)
    (htake : s.take? turn = some s') : s'.remaining < s.remaining ∧ s'.disk = s.disk := by
  cases turn with
  | scan i turn =>
    obtain ⟨stage, move, hstage, hturn, rfl⟩ := take?_scan_eq_some_iff.mp htake
    have hless := (ScanStage.goes_of_turn? hturn).remaining_lt hsound
    obtain ⟨front, back, hscans, hset⟩ := exists_set_eq hstage
    refine ⟨?_, rfl⟩
    simp only [remaining, advance, hset, List.map_append, List.map_cons, List.sum_append,
      List.sum_cons, List.length_append, List.length_map]
    simp only [hscans, List.map_append, List.map_cons, List.sum_append, List.sum_cons]
    omega
  | receive =>
    obtain ⟨letter, rest, hmailbox, rfl⟩ := take?_receive_eq_some_iff.mp htake
    refine ⟨?_, rfl⟩
    have hhear : ∀ n, ((s.deliver letter rest).scans.map (ScanStage.remaining n)).sum ≤
        (s.scans.map (ScanStage.remaining n)).sum := by
      intro n
      obtain hsame | ⟨i, stage, hstage, hheard⟩ := scans_deliver_cases s letter rest
      · rw [hsame]
      · obtain ⟨front, back, hscans, hset⟩ := exists_set_eq hstage
        have hless := stage.remaining_hear n (s.inventory.owner.receive letter.command).1
        rw [hheard, hset, hscans]
        simp only [List.map_append, List.map_cons, List.sum_append, List.sum_cons]
        omega
    have hsum := hhear (AppRecord.listedCount s.inventory.dir s.disk)
    rw [remaining, remaining, hmailbox, List.length_cons]
    exact Nat.add_lt_add_of_le_of_lt hsum (Nat.lt_succ_self _)
  | begin => cases hongoing
  | remove => cases hongoing
  | change => cases hongoing

theorem length_le_remaining (hsound : s.disk.top.Sound)
    (hongoing : ∀ turn ∈ turns, turn.isOngoing = true) (htake : s.takeAll? turns = some t) :
    turns.length ≤ s.remaining := by
  induction turns generalizing s with
  | nil => exact Nat.zero_le _
  | cons turn turns ih =>
    obtain ⟨u, hu, hrest⟩ := takeAll?_cons_eq_some_iff.mp htake
    rw [List.forall_mem_cons] at hongoing
    obtain ⟨hless, hdisk⟩ := remaining_take_lt hsound hongoing.1 hu
    have hlength := ih (hdisk.symm ▸ hsound) hongoing.2 hrest
    exact Nat.succ_le_of_lt (hlength.trans_lt hless)

end Discovery

end Reclaim

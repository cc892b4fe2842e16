import Reclaim.App.Discovery
import Reclaim.Proofs.App.Ownership

/-!
# The turns of an inventory in use

An inventory in use goes on turn by turn.  What a part of a scan does is told once, case by case,
and so is what the owner does with what it takes from its mailbox.  If nothing comes between the
parts of a scan, or between a removal and its answer, they amount to `Inventory.scan` and
`Inventory.remove`.

## Main definitions

* `ScanStage.Goes` : how the parts of a scan go.
* `Discovery.withLast` : an inventory in use with one more scan.

## Main results

* `ScanStage.goes_of_turn?`, `ScanStage.hear_cases` : the cases are all there are.
* `Discovery.scans_deliver_cases` : who hears from the owner.
* `Discovery.exists_takeAll?_scan`, `Discovery.takeAll?_remove` : a scan and a removal that nothing
  comes between.
-/

namespace Reclaim

/-- A list around one of its elements. -/
theorem exists_set_eq {α : Type} {l : List α} {i : Nat} {a : α} (h : l[i]? = some a) :
    ∃ front back, l = front ++ a :: back ∧ ∀ b, l.set i b = front ++ b :: back := by
  obtain ⟨hi, rfl⟩ := List.getElem?_eq_some_iff.mp h
  refine ⟨l.take i, l.drop (i + 1), ?_, fun b => ?_⟩
  · rw [List.getElem_cons_drop, List.take_append_drop]
  · rw [List.set_eq_take_append_cons_drop, if_pos hi]

/-! ### Parts of a scan -/

namespace ScanStage

/-- How the parts of a scan go, one case for each. -/
inductive Goes (fanout : Nat) (v : Inventory) (d : Disk) : ScanStage → ScanMove → Prop
  | looked (h : v.apps.value = []) : Goes fanout v d .begun { stage := .looked }
  | found (h : v.apps.value ≠ []) :
    Goes fanout v d .begun { stage := .answered (.ok v.apps.value.length) }
  | unlisted {e : AppError} (h : AppRecord.listFolder v.nextId v.dir d = .error e) :
    Goes fanout v d .looked { stage := .answered (.error e) }
  | listed {records : List AppRecord}
    (h : AppRecord.listFolder v.nextId v.dir d = .ok records) :
    Goes fanout v d .looked { stage := .listed records, identities := records.length }
  | offered (records : List AppRecord) :
    Goes fanout v d (.listed records) { stage := .offering records, sent := [.populate records] }
  | started {count : Nat} {r : AppRecord} {waiting running : List AppRecord}
    {measured : List Measurement} (h : running.length + measured.length < max 1 fanout) :
    Goes fanout v d (.measuring count (r :: waiting) running measured)
      { stage := .measuring count waiting (running ++ [r]) measured }
  | measured {count k : Nat} {r : AppRecord} {waiting running : List AppRecord}
    {measured : List Measurement} (h : running[k]? = some r) :
    Goes fanout v d (.measuring count waiting running measured)
      { stage := .measuring count waiting (running.eraseIdx k) (measured ++ [.of d r]) }
  | sent {count k : Nat} {m : Measurement} {waiting running : List AppRecord}
    {measured : List Measurement} (h : measured[k]? = some m) :
    Goes fanout v d (.measuring count waiting running measured)
      { stage := .measuring count waiting running (measured.eraseIdx k), sent := [m.command] }
  | finished (count : Nat) :
    Goes fanout v d (.measuring count [] [] []) { stage := .settling count, sent := [.barrier] }
  | left : Goes fanout v d .refused { stage := .answered (.ok v.apps.value.length) }

theorem goes_of_turn? {fanout : Nat} {v : Inventory} {d : Disk} {turn : ScanTurn}
    {stage : ScanStage} {move : ScanMove} (h : stage.turn? fanout v d turn = some move) :
    Goes fanout v d stage move := by
  unfold turn? at h
  split at h
  · split at h
    next hempty =>
      cases h
      exact .looked (List.isEmpty_iff.mp hempty)
    next hsome =>
      cases h
      exact .found (mt List.isEmpty_iff.mpr hsome)
  · split at h
    next e hlist =>
      cases h
      exact .unlisted hlist
    next records hlist =>
      cases h
      exact .listed hlist
  · cases h
    exact .offered _
  · split at h
    next hroom =>
      cases h
      exact .started hroom
    next => cases h
  · obtain ⟨r, hr, rfl⟩ := Option.map_eq_some_iff.mp h
    exact .measured hr
  · obtain ⟨m, hm, rfl⟩ := Option.map_eq_some_iff.mp h
    exact .sent hm
  · cases h
    exact .finished _
  · cases h
    exact .left
  · cases h

/-- What a scan hears changes its stage only if it waits for it. -/
theorem hear_cases (reply : AppReply) (stage : ScanStage) : stage.hear reply = stage ∨
    (∃ records, stage = .offering records ∧
      (stage.hear reply = .measuring records.length records [] [] ∨
        stage.hear reply = .refused)) ∨
    ∃ count, stage = .settling count ∧ stage.hear reply = .completed count := by
  fun_cases hear reply stage with
  | case1 records => exact .inr (.inl ⟨records, rfl, .inl rfl⟩)
  | case2 records => exact .inr (.inl ⟨records, rfl, .inr rfl⟩)
  | case3 count => exact .inr (.inr ⟨count, rfl, rfl⟩)
  | case4 => exact .inl rfl

end ScanStage

/-! ### Turns -/

namespace Discovery

variable {s s' t : Discovery} {i : Nat} {stage : ScanStage} {letter : Letter}
  {rest : List Letter} {turn : DiscoveryTurn} {turns : List DiscoveryTurn}

theorem take?_scan_eq_some_iff {turn : ScanTurn} : s.take? (.scan i turn) = some s' ↔
    ∃ stage move, s.scans[i]? = some stage ∧
      stage.turn? s.fanout s.inventory s.disk turn = some move ∧ s.advance i move = s' := by
  simp [take?, Option.bind_eq_some_iff]

theorem take?_receive_eq_some_iff : s.take? .receive = some s' ↔
    ∃ letter rest, s.mailbox = letter :: rest ∧ s.deliver letter rest = s' := by
  cases hmailbox : s.mailbox <;> simp [take?, hmailbox]

/-- What the scan that waits for the owner hears. -/
theorem scans_deliver (rest : List Letter) (hsender : letter.sender = some i)
    (hstage : s.scans[i]? = some stage) :
    (s.deliver letter rest).scans =
      s.scans.set i (stage.hear (s.inventory.owner.receive letter.command).1) := by
  simp [deliver, hsender, List.modify_eq_set_getElem?, hstage]

/-- One scan at most hears from the owner. -/
theorem scans_deliver_cases (s : Discovery) (letter : Letter) (rest : List Letter) :
    (s.deliver letter rest).scans = s.scans ∨
      ∃ i stage, s.scans[i]? = some stage ∧ (s.deliver letter rest).scans =
        s.scans.set i (stage.hear (s.inventory.owner.receive letter.command).1) := by
  cases hsender : letter.sender with
  | none => exact .inl (by simp only [deliver, hsender])
  | some i =>
    cases hstage : s.scans[i]? with
    | none => exact .inl (by simp [deliver, hsender, List.modify_eq_set_getElem?, hstage])
    | some stage => exact .inr ⟨i, stage, hstage, scans_deliver rest hsender hstage⟩

theorem takeAll?_cons (s : Discovery) (turn : DiscoveryTurn) (turns : List DiscoveryTurn) :
    s.takeAll? (turn :: turns) = (s.take? turn).bind fun u => u.takeAll? turns :=
  List.foldlM_cons

theorem takeAll?_cons_eq_some_iff : s.takeAll? (turn :: turns) = some t ↔
    ∃ u, s.take? turn = some u ∧ u.takeAll? turns = some t := by
  rw [takeAll?_cons, Option.bind_eq_some_iff]

theorem takeAll?_append_eq_some_iff {front back : List DiscoveryTurn} :
    s.takeAll? (front ++ back) = some t ↔
      ∃ u, s.takeAll? front = some u ∧ u.takeAll? back = some t := by
  rw [takeAll?, List.foldlM_append]
  exact Option.bind_eq_some_iff

end Discovery

/-! ### Scans that nothing comes between -/

namespace AppOwner

theorem receive_fill_fst (owner : AppOwner) (id : AppId) (icon : Option Path)
    (sizeBytes : Option Nat) : (owner.receive (.fill id icon sizeBytes)).1 = .filled := by
  rw [receive]
  split <;> rfl

end AppOwner

namespace Discovery

variable {s : Discovery} {v : Inventory} {stage stage' : ScanStage} {part : ScanTurn}
  {c : AppCommand} {identities : Nat}

/-- The inventory is used by one more scan, which is at a stage. -/
def withLast (s : Discovery) (v : Inventory) (stage : ScanStage) : Discovery :=
  { s with inventory := v, scans := s.scans ++ [stage] }

/-- The last scan goes on. -/
theorem take?_withLast
    (h : stage.turn? s.fanout v s.disk part = some { stage := stage', identities }) :
    (s.withLast v stage).take? (.scan s.scans.length part) =
      some (s.withLast { v with nextId := v.nextId + identities } stage') := by
  simp [withLast, take?, h, advance]

/-- The last scan asks the owner, who has nothing else to do, and hears from it. -/
theorem takeAll?_withLast_receive (hmailbox : s.mailbox = []) (v : Inventory) (stage : ScanStage)
    (part : ScanTurn)
    (h : stage.turn? s.fanout v s.disk part = some { stage := stage', sent := [c] }) :
    (s.withLast v stage).takeAll? [.scan s.scans.length part, .receive] =
      some (s.withLast { v with owner := (v.owner.receive c).2 }
        (stage'.hear (v.owner.receive c).1)) := by
  simp [takeAll?, withLast, take?, h, advance, deliver, hmailbox, List.modify_eq_set_getElem?]

/-- The applications that wait are measured one after the other. -/
theorem exists_takeAll?_measuring (hmailbox : s.mailbox = []) (count : Nat)
    (waiting : List AppRecord) (v : Inventory) : ∃ turns,
      (s.withLast v (.measuring count waiting [] [])).takeAll? turns =
        some (s.withLast
          { v with owner := v.owner.receiveAll (waiting.map (Inventory.measure s.disk)) }
          (.measuring count [] [] [])) := by
  induction waiting generalizing v with
  | nil => exact ⟨[], rfl⟩
  | cons r waiting ih =>
    let v' : Inventory := { v with owner := (v.owner.receive (Inventory.measure s.disk r)).2 }
    obtain ⟨turns, hturns⟩ := ih v'
    have hstart : (ScanStage.measuring count (r :: waiting) [] []).turn? s.fanout v s.disk .start =
        some { stage := .measuring count waiting [r] [] } := by simp [ScanStage.turn?]
    have hmeasure : (ScanStage.measuring count waiting [r] []).turn? s.fanout v s.disk
        (.measure 0) = some { stage := .measuring count waiting [] [.of s.disk r] } := rfl
    have hsend := takeAll?_withLast_receive hmailbox v (.measuring count waiting [] [.of s.disk r])
      (.send 0) rfl
    have hanswer : (v.owner.receive (Measurement.of s.disk r).command).1 = .filled :=
      AppOwner.receive_fill_fst _ _ _ _
    rw [hanswer] at hsend
    refine ⟨.scan s.scans.length .start :: .scan s.scans.length (.measure 0) ::
      ([.scan s.scans.length (.send 0), .receive] ++ turns), ?_⟩
    exact takeAll?_cons_eq_some_iff.mpr ⟨_, take?_withLast hstart,
      takeAll?_cons_eq_some_iff.mpr ⟨_, take?_withLast hmeasure,
      takeAll?_append_eq_some_iff.mpr ⟨_, hsend, hturns⟩⟩⟩

/-- A list that is offered to an owner without one is taken and filled. -/
theorem exists_takeAll?_listed (hmailbox : s.mailbox = []) (hempty : v.owner.records = [])
    (records : List AppRecord) : ∃ turns,
      (s.withLast v (.listed records)).takeAll? turns =
        some (s.withLast
          { v with
            owner := (v.owner.publish records).receiveAll
              (records.map (Inventory.measure s.disk)) }
          (.completed records.length)) := by
  have hoffer := takeAll?_withLast_receive hmailbox v (.listed records) .offer rfl
  rw [AppOwner.receive_populate_of_nil hempty] at hoffer
  obtain ⟨turns, hturns⟩ := exists_takeAll?_measuring hmailbox records.length records
    { v with owner := v.owner.publish records }
  have hfinish := takeAll?_withLast_receive hmailbox
    { v with
      owner := (v.owner.publish records).receiveAll (records.map (Inventory.measure s.disk)) }
    (.measuring records.length [] [] []) .finish rfl
  exact ⟨[.scan s.scans.length .offer, .receive] ++ (turns ++
      [.scan s.scans.length .finish, .receive]),
    takeAll?_append_eq_some_iff.mpr ⟨_, hoffer,
      takeAll?_append_eq_some_iff.mpr ⟨_, hturns, hfinish⟩⟩⟩

/-- A scan that nothing comes between is `Inventory.scan`. -/
theorem exists_takeAll?_scan (hrunning : s.inventory.running = true)
    (hseen : s.inventory.apps.value = s.inventory.owner.records) (hmailbox : s.mailbox = []) :
    ∃ turns stage, s.takeAll? (.begin :: turns) =
        some (s.withLast (s.inventory.scan s.disk).2 stage) ∧
        stage.result? = some (s.inventory.scan s.disk).1 := by
  have hbegin : s.take? .begin = some (s.withLast s.inventory .begun) := rfl
  have hlast : ∀ {turns t}, (s.withLast s.inventory .begun).takeAll? turns = some t →
      s.takeAll? (.begin :: turns) = some t := fun h =>
    takeAll?_cons_eq_some_iff.mpr ⟨_, hbegin, h⟩
  by_cases hempty : s.inventory.apps.value = []
  · have hlook : ScanStage.begun.turn? s.fanout s.inventory s.disk .look =
        some { stage := .looked } := by simp [ScanStage.turn?, hempty]
    cases hlist : AppRecord.listFolder s.inventory.nextId s.inventory.dir s.disk with
    | error e =>
      have hunlisted : ScanStage.looked.turn? s.fanout s.inventory s.disk .list =
          some { stage := .answered (.error e) } := by simp [ScanStage.turn?, hlist]
      rw [Inventory.scan_of_error hempty hlist]
      exact ⟨[.scan s.scans.length .look, .scan s.scans.length .list], .answered (.error e),
        hlast (takeAll?_cons_eq_some_iff.mpr ⟨_, take?_withLast hlook,
          takeAll?_cons_eq_some_iff.mpr ⟨_, take?_withLast hunlisted, rfl⟩⟩), rfl⟩
    | ok records =>
      have hrecords : s.inventory.owner.records = [] := hseen.symm.trans hempty
      have hlisted : ScanStage.looked.turn? s.fanout s.inventory s.disk .list =
          some { stage := .listed records, identities := records.length } := by
        simp [ScanStage.turn?, hlist]
      let v : Inventory := { s.inventory with nextId := s.inventory.nextId + records.length }
      have howner : v.owner.records = [] := hrecords
      obtain ⟨turns, hturns⟩ := exists_takeAll?_listed hmailbox howner records
      rw [Inventory.scan_of_ok hrunning hempty hrecords hlist]
      exact ⟨.scan s.scans.length .look :: .scan s.scans.length .list :: turns,
        .completed records.length,
        hlast (takeAll?_cons_eq_some_iff.mpr ⟨_, take?_withLast hlook,
          takeAll?_cons_eq_some_iff.mpr ⟨_, take?_withLast hlisted, hturns⟩⟩), rfl⟩
  · have hlook : ScanStage.begun.turn? s.fanout s.inventory s.disk .look =
        some { stage := .answered (.ok s.inventory.apps.value.length) } := by
      simp [ScanStage.turn?, hempty]
    rw [Inventory.scan_of_ne_nil hempty]
    exact ⟨[.scan s.scans.length .look], .answered (.ok s.inventory.apps.value.length),
      hlast (takeAll?_cons_eq_some_iff.mpr ⟨_, take?_withLast hlook, rfl⟩), rfl⟩

/-- A removal that nothing comes between is `Inventory.remove`. -/
theorem takeAll?_remove (hrunning : s.inventory.running = true) (hmailbox : s.mailbox = [])
    (id : AppId) :
    s.takeAll? [.remove id, .receive] =
      some { s with inventory := (s.inventory.remove id).2 } := by
  rw [Inventory.remove_snd hrunning]
  simp [takeAll?, take?, deliver, hmailbox]

end Discovery

end Reclaim

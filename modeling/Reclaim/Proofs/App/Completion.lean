import Reclaim.Proofs.App.Ending

/-!
# Scans that end

Several scans go on at the same time, and nothing is removed.  The owner takes the first list it is
offered and no other, unless that list is empty, and the scan whose list was taken fills it.  When
it has ended, nothing of its list is left to be filled, because the owner takes what it is sent in
order and answers the scan last.  The scans that were too late count the list that is there.

## Main definitions

* `DiscoveryTurn.isCalm` : the turns of scans.
* `Discovery.inFlight` : what a scan has sent that the owner has not yet taken.
* `Discovery.Tidy` : what is so while nothing but scans goes on.

## Main results

* `Discovery.Tidy.take`, `Discovery.Tidy.takeAll` : it is kept.
* `Discovery.Tidy.exists_take` : as long as a scan has not ended, something can happen.
* `Discovery.Tidy.result_cases`, `Discovery.exists_isListing_of_completed` : what a scan that has
  ended gives and leaves.
* `Discovery.scans_complete` : scans end, and the list is complete.
-/

namespace Reclaim

/-! ### Scans that nothing else interferes with -/

/-- Nothing but scans goes on. -/
def DiscoveryTurn.isCalm : DiscoveryTurn → Bool
  | .begin | .scan _ _ | .receive => true
  | .remove _ | .change _ => false

namespace Discovery

variable {s s' t : Discovery} {i : Nat} {stage : ScanStage} {move : ScanMove}
  {letter : Letter} {rest : List Letter} {turn : DiscoveryTurn} {turns : List DiscoveryTurn}
  {dir : Path} {d : Disk} {w : Nat}

/-- What a scan has sent that the owner has not yet taken. -/
def inFlight (s : Discovery) (i : Nat) : List AppCommand :=
  (s.mailbox.filter fun letter => letter.sender == some i).map Letter.command

theorem inFlight_advance_self (s : Discovery) (i : Nat) (move : ScanMove) :
    (s.advance i move).inFlight i = s.inFlight i ++ move.sent := by
  simp [inFlight, advance, List.filter_map, Function.comp_def]

theorem inFlight_advance_of_ne (s : Discovery) (move : ScanMove) {j : Nat} (hne : i ≠ j) :
    (s.advance i move).inFlight j = s.inFlight j := by
  simp [inFlight, advance, List.filter_map, Function.comp_def, hne]

theorem inFlight_deliver_self (hmailbox : s.mailbox = letter :: rest)
    (hsender : letter.sender = some i) :
    s.inFlight i = letter.command :: (s.deliver letter rest).inFlight i := by
  simp [inFlight, deliver, hmailbox, hsender]

theorem inFlight_deliver_of_ne (hmailbox : s.mailbox = letter :: rest)
    (hsender : letter.sender = some i) {j : Nat} (hne : i ≠ j) :
    (s.deliver letter rest).inFlight j = s.inFlight j := by
  simp [inFlight, deliver, hmailbox, hsender, hne]

/-- Something is still so of one of the scans when one of them has changed. -/
theorem exists_mem_set {α : Type} {P : α → Prop} {l : List α} {i : Nat} {a b : α}
    (ha : l[i]? = some a) (hb : P a → P b) (h : ∃ x ∈ l, P x) : ∃ x ∈ l.set i b, P x := by
  obtain ⟨front, back, hl, hset⟩ := exists_set_eq ha
  rw [hset]
  rw [hl] at h
  simp only [List.mem_append, List.mem_cons, or_and_right, exists_or, exists_eq_left] at h ⊢
  exact h.imp_right (Or.imp_left hb)

/-- What is so while scans go on and nothing else happens, from a list without applications after
`w` writes on. -/
structure Tidy (dir : Path) (d : Disk) (w : Nat) (s : Discovery) : Prop where
  dir_eq : s.inventory.dir = dir
  disk_eq : s.disk = d
  serves : s.inventory.owner.Serves dir d w
  senders : ∀ letter ∈ s.mailbox, ∃ i < s.scans.length, letter.sender = some i
  fits : ∀ (i : Nat) (stage : ScanStage), s.scans[i]? = some stage →
    stage.Fits dir d s.inventory.owner.records (s.inFlight i)
  taken : s.inventory.owner.records ≠ [] ∨ (∃ stage ∈ s.scans, stage.isLate = true) →
    ∃ stage ∈ s.scans, stage.isTaken = true

theorem Tidy.begin (h : s.Tidy dir d w) :
    ({ s with scans := s.scans ++ [.begun] } : Discovery).Tidy dir d w where
  dir_eq := h.dir_eq
  disk_eq := h.disk_eq
  serves := h.serves
  senders letter hletter := by
    obtain ⟨i, hi, hsender⟩ := h.senders letter hletter
    refine ⟨i, ?_, hsender⟩
    rw [List.length_append]
    exact Nat.lt_add_right _ hi
  fits i stage hstage := by
    rw [List.getElem?_append] at hstage
    split at hstage
    next => exact h.fits i stage hstage
    next hi =>
      -- nothing has been sent in the name of the new scan
      obtain ⟨-, rfl⟩ : i - s.scans.length = 0 ∧ stage = .begun := by
        rw [List.getElem?_singleton] at hstage
        split at hstage
        next hzero => exact ⟨hzero, (Option.some.inj hstage).symm⟩
        next => cases hstage
      refine List.map_eq_nil_iff.mpr (List.filter_eq_nil_iff.mpr fun letter hletter => ?_)
      obtain ⟨j, hj, hsender⟩ := h.senders letter hletter
      rw [hsender, beq_iff_eq, Option.some.injEq]
      omega
  taken hsome := by
    simp only [List.mem_append, List.mem_singleton, or_and_right, exists_or,
      exists_eq_left] at hsome ⊢
    refine .inl (h.taken ?_)
    rcases hsome with hsome | hlate | hlate
    · exact .inl hsome
    · exact .inr hlate
    · cases hlate

theorem Tidy.advance (h : s.Tidy dir d w) (hstage : s.scans[i]? = some stage)
    (hgoes : stage.Goes s.fanout s.inventory s.disk move) : (s.advance i move).Tidy dir d w where
  dir_eq := h.dir_eq
  disk_eq := h.disk_eq
  serves := h.serves
  senders letter hletter := by
    have hi : i < s.scans.length := (List.getElem?_eq_some_iff.mp hstage).1
    rw [Discovery.advance, List.length_set]
    rcases List.mem_append.mp hletter with hold | hsent
    · exact h.senders letter hold
    · obtain ⟨command, -, rfl⟩ := List.mem_map.mp hsent
      exact ⟨i, hi, rfl⟩
  fits j other hother := by
    obtain ⟨rfl, rfl, hserves, -, hfits, -⟩ := h
    rw [Discovery.advance, List.getElem?_set] at hother
    split at hother
    next heq =>
      subst heq
      split at hother
      next =>
        cases hother
        rw [inFlight_advance_self]
        exact (hfits i stage hstage).goes hserves hgoes
      next => cases hother
    next hne =>
      rw [inFlight_advance_of_ne s move hne]
      exact hfits j other hother
  taken hsome := by
    refine exists_mem_set hstage hgoes.isTaken (h.taken ?_)
    rcases hsome with hsome | ⟨other, hother, hlate⟩
    · exact .inl hsome
    · rcases List.mem_or_eq_of_mem_set hother with hold | rfl
      · exact .inr ⟨other, hold, hlate⟩
      · rcases hgoes.isLate hlate with hsome | hlate
        · rw [Inventory.apps, h.serves.seen] at hsome
          exact .inl hsome
        · exact .inr ⟨stage, List.mem_of_getElem? hstage, hlate⟩

/-- The owner takes what a scan has sent first. -/
theorem Tidy.receive (hsound : d.top.Sound) (h : s.Tidy dir d w)
    (hmailbox : s.mailbox = letter :: rest) : ∃ i stage, letter.sender = some i ∧
      s.scans[i]? = some stage ∧ stage.Received dir d w s.inventory.owner
        (s.inventory.owner.receive letter.command) ((s.deliver letter rest).inFlight i) := by
  obtain ⟨i, hi, hsender⟩ := h.senders letter (hmailbox ▸ List.mem_cons_self)
  have hstage : s.scans[i]? = some s.scans[i] := List.getElem?_eq_getElem hi
  have hfits := h.fits i _ hstage
  rw [inFlight_deliver_self hmailbox hsender] at hfits
  exact ⟨i, _, hsender, hstage, hfits.receive hsound h.serves⟩

theorem Tidy.deliver (hsound : d.top.Sound) (h : s.Tidy dir d w)
    (hmailbox : s.mailbox = letter :: rest) : (s.deliver letter rest).Tidy dir d w := by
  obtain ⟨i, stage, hsender, hstage, hreceived⟩ := h.receive hsound hmailbox
  have hscans := scans_deliver rest hsender hstage
  have hi : i < s.scans.length := (List.getElem?_eq_some_iff.mp hstage).1
  refine ⟨h.dir_eq, h.disk_eq, hreceived.serves, fun letter' hletter => ?_,
    fun j other hother => ?_, fun _ => ?_⟩
  · rw [hscans, List.length_set]
    exact h.senders letter' (hmailbox ▸ List.mem_cons_of_mem letter hletter)
  · rw [hscans, List.getElem?_set] at hother
    split at hother
    next heq =>
      subst heq
      cases hother
      exact hreceived.fits
    next hne =>
      rw [inFlight_deliver_of_ne hmailbox hsender hne]
      have hold := h.fits j other hother
      rcases hreceived.others with hadvances | ⟨hnil, hlisted⟩
      · exact hold.advances hadvances
      · exact (hnil ▸ hold).populate hsound hlisted
  · rw [hscans]
    rcases hreceived.taken with hsome | htaken
    · exact exists_mem_set hstage (ScanStage.isTaken_hear _) (h.taken (.inl hsome))
    · exact ⟨_, List.mem_set hi _, htaken⟩

theorem Tidy.take (hsound : d.top.Sound) (h : s.Tidy dir d w) (hcalm : turn.isCalm = true)
    (htake : s.take? turn = some s') : s'.Tidy dir d w := by
  cases turn with
  | begin =>
    cases htake
    exact h.begin
  | scan i turn =>
    obtain ⟨stage, move, hstage, hturn, rfl⟩ := take?_scan_eq_some_iff.mp htake
    exact h.advance hstage (ScanStage.goes_of_turn? hturn)
  | receive =>
    obtain ⟨letter, rest, hmailbox, rfl⟩ := take?_receive_eq_some_iff.mp htake
    exact h.deliver hsound hmailbox
  | remove => cases hcalm
  | change => cases hcalm

theorem Tidy.takeAll (hsound : d.top.Sound) (h : s.Tidy dir d w)
    (hcalm : ∀ turn ∈ turns, turn.isCalm = true) (htake : s.takeAll? turns = some t) :
    t.Tidy dir d w := by
  induction turns generalizing s with
  | nil =>
    cases htake
    exact h
  | cons turn turns ih =>
    obtain ⟨u, hu, hrest⟩ := takeAll?_cons_eq_some_iff.mp htake
    rw [List.forall_mem_cons] at hcalm
    exact ih (h.take hsound hcalm.1 hu) hcalm.2 hrest

/-! ### The first list -/

/-- The owner writes its list at most once for a command. -/
theorem writes_receive (owner : AppOwner) (c : AppCommand) :
    (owner.receive c).2.published.writes = owner.published.writes ∨
      (owner.receive c).2.published.writes = owner.published.writes + 1 := by
  cases c with
  | populate =>
    rw [AppOwner.receive]
    split
    · exact .inr rfl
    · exact .inl rfl
  | fill | remove =>
    rw [AppOwner.receive]
    split
    · exact .inr rfl
    · exact .inl rfl
  | barrier => exact .inl rfl

theorem writes_take (htake : s.take? turn = some s') :
    s'.inventory.apps.writes = s.inventory.apps.writes ∨
      s'.inventory.apps.writes = s.inventory.apps.writes + 1 := by
  cases turn with
  | begin | remove | change =>
    cases htake
    exact .inl rfl
  | scan i turn =>
    obtain ⟨stage, move, -, -, rfl⟩ := take?_scan_eq_some_iff.mp htake
    exact .inl rfl
  | receive =>
    obtain ⟨letter, rest, -, rfl⟩ := take?_receive_eq_some_iff.mp htake
    exact writes_receive _ _

/-- On the way to a list that has been written there is the first time that it was. -/
theorem exists_first_write (htake : s.takeAll? turns = some t)
    (hwrites : s.inventory.apps.writes < t.inventory.apps.writes) :
    ∃ front back u, turns = front ++ back ∧ s.takeAll? front = some u ∧
      u.takeAll? back = some t ∧ u.inventory.apps.writes = s.inventory.apps.writes + 1 := by
  induction turns generalizing s with
  | nil =>
    cases htake
    exact absurd hwrites (lt_irrefl _)
  | cons turn turns ih =>
    obtain ⟨u, hu, hrest⟩ := takeAll?_cons_eq_some_iff.mp htake
    rcases writes_take hu with hsame | hnext
    · obtain ⟨front, back, u', rfl, hfront, hback, hfirst⟩ := ih hrest (hsame ▸ hwrites)
      exact ⟨turn :: front, back, u', rfl, takeAll?_cons_eq_some_iff.mpr ⟨u, hu, hfront⟩, hback,
        hsame ▸ hfirst⟩
    · exact ⟨[turn], turns, u, rfl, takeAll?_cons_eq_some_iff.mpr ⟨u, hu, rfl⟩, hrest, hnext⟩

/-- Once a list is there, the same applications stay on it. -/
theorem Tidy.map_bare_take (hsound : d.top.Sound) (h : s.Tidy dir d w)
    (hwrites : w < s.inventory.apps.writes) (hcalm : turn.isCalm = true)
    (htake : s.take? turn = some s') : w < s'.inventory.apps.writes ∧
      s'.inventory.owner.records.map AppRecord.bare =
        s.inventory.owner.records.map AppRecord.bare := by
  cases turn with
  | begin =>
    cases htake
    exact ⟨hwrites, rfl⟩
  | scan i turn =>
    obtain ⟨stage, move, -, -, rfl⟩ := take?_scan_eq_some_iff.mp htake
    exact ⟨hwrites, rfl⟩
  | receive =>
    obtain ⟨letter, rest, hmailbox, rfl⟩ := take?_receive_eq_some_iff.mp htake
    obtain ⟨i, stage, -, -, hreceived⟩ := h.receive hsound hmailbox
    have hwrites' := writes_take htake
    refine ⟨by omega, ?_⟩
    rcases hreceived.others with hadvances | ⟨hnil, hlisted⟩
    · exact hadvances.bare
    · have hempty := h.serves.listed hwrites
      rw [hnil, List.map_nil] at hempty
      exact congrArg (List.map AppRecord.bare)
        ((hempty.eq_nil hsound hlisted).trans hnil.symm)
  | remove => cases hcalm
  | change => cases hcalm

theorem Tidy.map_bare_takeAll (hsound : d.top.Sound) (h : s.Tidy dir d w)
    (hwrites : w < s.inventory.apps.writes) (hcalm : ∀ turn ∈ turns, turn.isCalm = true)
    (htake : s.takeAll? turns = some t) :
    t.inventory.owner.records.map AppRecord.bare =
      s.inventory.owner.records.map AppRecord.bare := by
  induction turns generalizing s with
  | nil =>
    cases htake
    rfl
  | cons turn turns ih =>
    obtain ⟨u, hu, hrest⟩ := takeAll?_cons_eq_some_iff.mp htake
    rw [List.forall_mem_cons] at hcalm
    obtain ⟨hwrites', hbare⟩ := h.map_bare_take hsound hwrites hcalm.1 hu
    exact (ih (h.take hsound hcalm.1 hu) hwrites' hcalm.2 hrest).trans hbare

/-! ### Going on and ending -/

/-- A scan that has not ended can go on, or the owner has something to do. -/
theorem Tidy.exists_take (h : s.Tidy dir d w) (hstage : s.scans[i]? = some stage)
    (hopen : stage.result? = none) :
    ∃ turn : DiscoveryTurn, turn.isOngoing = true ∧ s.take? turn ≠ none := by
  have hscan : ∀ part, stage.turn? s.fanout s.inventory s.disk part ≠ none →
      ∃ turn : DiscoveryTurn, turn.isOngoing = true ∧ s.take? turn ≠ none := by
    intro part hpart
    refine ⟨.scan i part, rfl, ?_⟩
    simpa [take?, hstage] using hpart
  have hreceive : s.inFlight i ≠ [] →
      ∃ turn : DiscoveryTurn, turn.isOngoing = true ∧ s.take? turn ≠ none := by
    intro hflight
    refine ⟨.receive, rfl, ?_⟩
    cases hmailbox : s.mailbox with
    | nil => simp [inFlight, hmailbox] at hflight
    | cons letter rest => simp [take?, hmailbox]
  have hfits := h.fits i stage hstage
  cases stage with
  | begun =>
    refine hscan .look ?_
    rw [ScanStage.turn?]
    split <;> exact Option.some_ne_none _
  | looked =>
    refine hscan .list ?_
    rw [ScanStage.turn?]
    split <;> exact Option.some_ne_none _
  | listed => exact hscan .offer (Option.some_ne_none _)
  | offering => exact hreceive (by simp [hfits.1])
  | refused => exact hscan .leave (Option.some_ne_none _)
  | measuring count waiting running measured =>
    cases measured with
    | cons m measured => exact hscan (.send 0) (Option.some_ne_none _)
    | nil =>
      cases running with
      | cons r running => exact hscan (.measure 0) (Option.some_ne_none _)
      | nil =>
        cases waiting with
        | nil => exact hscan .finish (Option.some_ne_none _)
        | cons r waiting =>
          refine hscan .start ?_
          have hroom : ([] : List AppRecord).length + ([] : List Measurement).length <
              max 1 s.fanout := by simp
          rw [ScanStage.turn?, if_pos hroom]
          exact Option.some_ne_none _
  | settling =>
    obtain ⟨fills, hflight, -⟩ := hfits
    exact hreceive (by simp [hflight])
  | answered => cases hopen
  | completed => cases hopen

/-! ### Scans that have ended -/

theorem tidy_start {v : Inventory} (hseen : v.apps.value = v.owner.records)
    (hempty : v.apps.value = []) (d : Disk) (fanout : Nat) :
    (Discovery.mk v d fanout [] []).Tidy v.dir d v.apps.writes where
  dir_eq := rfl
  disk_eq := rfl
  serves := ⟨hseen, le_rfl, fun _ => hseen.symm.trans hempty,
    fun hless => absurd hless (lt_irrefl _),
    fun hsucc => absurd hsucc (Nat.ne_of_lt (Nat.lt_succ_self _))⟩
  senders letter hletter := by cases hletter
  fits i stage hstage := by cases hstage
  taken hsome := by
    rcases hsome with hsome | ⟨stage, hstage, -⟩
    · exact absurd (hseen.symm.trans hempty) hsome
    · cases hstage

/-- What an ended scan has given is told by the directory. -/
theorem Tidy.result_cases (hsound : d.top.Sound) (h : s.Tidy dir d w) (hstage : stage ∈ s.scans)
    {result : Except AppError Nat} (hresult : stage.result? = some result) :
    (∃ error, d.list dir = .error error ∧ result = .error (.io dir error)) ∨
      AppRecord.Listed dir d (s.inventory.owner.records.map AppRecord.bare) ∧
        result = .ok (AppRecord.listedCount dir d) := by
  obtain ⟨i, hi⟩ := List.mem_iff_getElem?.mp hstage
  have hfits := h.fits i stage hi
  cases stage with
  | answered result' =>
    cases hresult
    cases result with
    | error e =>
      obtain ⟨-, error, herror, rfl⟩ := hfits
      exact .inl ⟨error, herror, rfl⟩
    | ok count =>
      obtain ⟨-, hcount, hlisted⟩ := hfits
      have hlength := hlisted.length_eq hsound
      rw [List.length_map, hcount] at hlength
      exact .inr ⟨hlisted, by rw [hlength]⟩
  | completed count =>
    cases hresult
    obtain ⟨-, hfilling⟩ := hfits
    have hlength := hfilling.listed.length_eq hsound
    rw [List.length_map, hfilling.length_eq] at hlength
    exact .inr ⟨hfilling.listed, by rw [hlength]⟩
  | begun | looked | listed | offering | refused | measuring | settling => cases hresult

/-- A scan that was alone has had its own list taken. -/
theorem Tidy.eq_completed (h : s.Tidy dir d w) (hone : s.scans = [stage]) {count : Nat}
    (hresult : stage.result? = some (.ok count)) : stage = .completed count := by
  cases stage with
  | answered result =>
    cases hresult
    have hlate : ∃ other ∈ s.scans, other.isLate = true :=
      ⟨_, hone ▸ List.mem_singleton_self _, rfl⟩
    obtain ⟨other, hother, htaken⟩ := h.taken (.inr hlate)
    rw [hone, List.mem_singleton] at hother
    rw [hother] at htaken
    cases htaken
  | completed =>
    cases hresult
    rfl
  | begun | looked | listed | offering | refused | measuring | settling => cases hresult

/-- The list of a scan that has ended is that of its directory with everything measured, and what
was written first was the same without. -/
theorem exists_isListing_of_completed (hsound : d.top.Sound) (h : s.Tidy dir d w)
    (htidy : t.Tidy dir d w) (hw : s.inventory.apps.writes = w)
    (hcalm : ∀ turn ∈ turns, turn.isCalm = true) (htake : s.takeAll? turns = some t) {count : Nat}
    (hcompleted : .completed count ∈ t.scans) :
    ∃ R, AppRecord.Listed dir d R ∧ t.inventory.apps.value = R.map (AppRecord.measured d) ∧
      (R ≠ [] → ∃ front u, front <+: turns ∧ s.takeAll? front = some u ∧
        u.inventory.apps = ⟨R, w + 1⟩) := by
  obtain ⟨i, hi⟩ := List.mem_iff_getElem?.mp hcompleted
  obtain ⟨-, hfilling⟩ := htidy.fits i _ hi
  refine ⟨_, hfilling.listed, htidy.serves.seen.trans hfilling.eq_map_measured, fun hsome => ?_⟩
  have hwrites : s.inventory.apps.writes < t.inventory.apps.writes := by
    rw [hw]
    refine Nat.lt_of_le_of_ne htidy.serves.since fun heq => hsome ?_
    rw [htidy.serves.none heq.symm, List.map_nil]
  obtain ⟨front, back, u, rfl, hfront, hback, hfirst⟩ := exists_first_write htake hwrites
  rw [hw] at hfirst
  have hcalm' := List.forall_mem_append.mp hcalm
  have hu := h.takeAll hsound hcalm'.1 hfront
  refine ⟨front, u, List.prefix_append front back, hfront, ?_⟩
  -- the list was bare when it was written first, and the same applications have stayed on it
  have hvalue : u.inventory.apps.value = t.inventory.owner.records.map AppRecord.bare := by
    rw [hu.map_bare_takeAll hsound (hfirst ▸ Nat.lt_succ_self _) hcalm'.2 hback,
      hu.serves.bare hfirst]
    exact hu.serves.seen
  rw [← hvalue, ← hfirst]

/-- A directory that cannot be listed leaves what is seen as it was. -/
theorem Tidy.apps_eq {v : Inventory} (h : s.Tidy dir d v.apps.writes) (hempty : v.apps.value = [])
    {error : FileError} (herror : d.list dir = .error error) : s.inventory.apps = v.apps := by
  have hnone : ∀ records, ¬AppRecord.Listed dir d records := by
    rintro records ⟨first, hlist⟩
    rw [AppRecord.listFolder, herror] at hlist
    cases hlist
  have hwrites : s.inventory.apps.writes = v.apps.writes := by
    by_contra hne
    exact hnone _ (h.serves.listed (Nat.lt_of_le_of_ne h.serves.since (Ne.symm hne)))
  have hvalue : s.inventory.apps.value = v.apps.value := by
    rw [hempty, Inventory.apps, h.serves.seen, h.serves.none hwrites]
  calc
    s.inventory.apps = ⟨s.inventory.apps.value, s.inventory.apps.writes⟩ := rfl
    _ = v.apps := by rw [hvalue, hwrites]

/-- A scan that begins while applications are listed gives their number, and that is all. -/
theorem take?_scan_begun_eq_some_iff (hsome : s.inventory.apps.value ≠ []) {part : ScanTurn} :
    ({ s with scans := s.scans ++ [.begun] } : Discovery).take? (.scan s.scans.length part) =
        some t ↔
      part = .look ∧
        t = { s with scans := s.scans ++ [.answered (.ok s.inventory.apps.value.length)] } := by
  have hnot : s.inventory.apps.value.isEmpty = false := by simpa using hsome
  cases part <;> simp [take?, ScanStage.turn?, hnot, advance, eq_comm]

/-- **A scan ends, and its list is complete.** An inventory has an empty list, and then any number
of scans begin and go on, each with its measurements in whatever order they end and with any limit
on how many there are at a time; nothing is removed, and the files do not change.  Every scan that
ends gives the number of entries that are listed.  A scan whose list was taken, as that of a scan
that is alone, leaves all of them measured, by name and with identities of their own, and what was
published first were the same applications in the same order with nothing filled in.  If the
directory cannot be listed, every scan that ends gives the error, and the list stays as it was.
However the scans that have begun go on, they end: what happens is bounded in number, and as long as
a scan has not ended something can happen.  And where a list with applications is there, a scan that
begins gives its length at once and changes nothing, whatever is on disk. -/
theorem scans_complete {v : Inventory} {d : Disk} {fanout : Nat} {commands : List AppCommand}
    {turns : List DiscoveryTurn} {s : Discovery}
    (hcommands : v.owner = ({} : AppOwner).receiveAll commands) (hempty : v.apps.value = [])
    (hsound : d.top.Sound) (hcalm : ∀ turn ∈ turns, turn.isCalm = true)
    (hrun : (Discovery.mk v d fanout [] []).takeAll? turns = some s) :
    (∀ entries, d.list v.dir = .ok entries →
      let n := (entries.filter fun entry => AppRecord.isListedName entry.1).length
      (∀ stage ∈ s.scans, ∀ result, stage.result? = some result → result = .ok n) ∧
      (∀ stage, s.scans = [stage] → stage.result?.isSome = true → stage = .completed n) ∧
      (.completed n ∈ s.scans → ∃ R, AppRecord.IsListing v.dir entries R ∧
        s.inventory.apps.value = (R.map fun r =>
          { r with
            icon := Bundle.icon? r.path d
            sizeBytes := some (d.folderSize r.path)
            size := Amount.size (d.folderSize r.path) }) ∧
        (R ≠ [] → ∃ front u, front <+: turns ∧
          (Discovery.mk v d fanout [] []).takeAll? front = some u ∧
          u.inventory.apps = ⟨R, v.apps.writes + 1⟩))) ∧
    (∀ error, d.list v.dir = .error error → s.inventory.apps = v.apps ∧
      ∀ stage ∈ s.scans, ∀ result, stage.result? = some result →
        result = .error (.io v.dir error)) ∧
    (∀ more t, (∀ turn ∈ more, turn.isOngoing = true) → s.takeAll? more = some t →
      more.length ≤ s.remaining ∧
      ((∀ turn : DiscoveryTurn, turn.isOngoing = true → t.take? turn = none) →
        ∀ stage ∈ t.scans, stage.result?.isSome = true)) ∧
    (∀ u : Discovery, u.inventory.apps.value ≠ [] → ∀ part t,
      Discovery.take? { u with scans := u.scans ++ [.begun] } (.scan u.scans.length part) =
          some t ↔
        part = .look ∧
          t = { u with scans := u.scans ++ [.answered (.ok u.inventory.apps.value.length)] }) := by
  have hseen : v.apps.value = v.owner.records := by
    rw [Inventory.apps, hcommands]
    exact AppOwner.published_receiveAll rfl commands
  have hstart := tidy_start hseen hempty d fanout
  have htidy := hstart.takeAll hsound hcalm hrun
  refine ⟨fun entries hentries => ?_, fun error herror => ?_, fun more t hmore htake => ?_,
    fun u hsome part t => take?_scan_begun_eq_some_iff hsome⟩
  · intro n
    have hn : AppRecord.listedCount v.dir d = n := by rw [AppRecord.listedCount, hentries]
    have hresults : ∀ stage ∈ s.scans, ∀ result, stage.result? = some result → result = .ok n := by
      intro stage hstage result hresult
      rcases htidy.result_cases hsound hstage hresult with ⟨error, herror, -⟩ | ⟨-, rfl⟩
      · cases hentries.symm.trans herror
      · rw [hn]
    refine ⟨hresults, fun stage hone hended => ?_, fun hcompleted => ?_⟩
    · obtain ⟨result, hresult⟩ := Option.isSome_iff_exists.mp hended
      have hok := hresults stage (hone ▸ List.mem_singleton_self stage) result hresult
      exact htidy.eq_completed hone (hok ▸ hresult)
    · obtain ⟨R, hlisted, hvalue, hfirst⟩ :=
        exists_isListing_of_completed hsound hstart htidy rfl hcalm hrun hcompleted
      obtain ⟨entries', hentries', hlisting⟩ := hlisted.isListing hsound
      cases hentries.symm.trans hentries'
      exact ⟨R, hlisting, hvalue, hfirst⟩
  · refine ⟨htidy.apps_eq hempty herror, fun stage hstage result hresult => ?_⟩
    rcases htidy.result_cases hsound hstage hresult with ⟨error', herror', rfl⟩ | ⟨hlisted, -⟩
    · cases herror.symm.trans herror'
      rfl
    · obtain ⟨entries, hentries, -⟩ := hlisted.isListing hsound
      cases herror.symm.trans hentries
  · have hdisk : s.disk.top.Sound := htidy.disk_eq.symm ▸ hsound
    have hcalm' : ∀ turn ∈ more, turn.isCalm = true := by
      intro turn hturn
      have hongoing := hmore turn hturn
      cases turn <;> first | rfl | cases hongoing
    refine ⟨length_le_remaining hdisk hmore htake, fun hover stage hstage => ?_⟩
    obtain ⟨i, hi⟩ := List.mem_iff_getElem?.mp hstage
    by_contra hopen
    obtain ⟨turn, hturn, hpossible⟩ :=
      (htidy.takeAll hsound hcalm' htake).exists_take hi (by simpa using hopen)
    exact hpossible (hover turn hturn)

/-- Two bundles among other entries. -/
def twoBundles : Disk :=
  ⟨.folder [("A", .folder [("b.app", .folder [("x", .file 0 (.bytes ⟨#[1, 2, 3]⟩))]),
    (".c.app", .folder []), ("notes", .folder []), ("a.app", .folder [])])]⟩

/-- The records of the two. -/
def twoListed : List AppRecord :=
  [{ id := ⟨2⟩, name := "a", path := ⟨"/A/a.app"⟩ },
    { id := ⟨1⟩, name := "b", path := ⟨"/A/b.app"⟩ }]

theorem listFolder_twoBundles :
    AppRecord.listFolder 1 ⟨"/A"⟩ twoBundles = .ok twoListed := by
  have hsort : twoListed.reverse.mergeSort AppRecord.sortsBefore = twoListed := by
    have hlast : AppRecord.sortsBefore
        { id := ⟨1⟩, name := "b", path := ⟨"/A/b.app"⟩ }
        { id := ⟨2⟩, name := "a", path := ⟨"/A/a.app"⟩ } = false := by decide +kernel
    simp [twoListed, List.mergeSort, List.MergeSort.Internal.splitInTwo, hlast]
  rw [← hsort]
  rfl

/-- A scan up to the list that it offers. -/
def untilListed : List DiscoveryTurn :=
  [.begin, .scan 0 .look, .scan 0 .list]

/-- The two are measured at the same time, and the one that was begun last ends first. -/
def outOfOrder : List DiscoveryTurn :=
  [.scan 0 .offer, .receive, .scan 0 .start, .scan 0 .start, .scan 0 (.measure 1),
    .scan 0 (.send 0), .scan 0 (.measure 0), .receive, .scan 0 (.send 0), .scan 0 .finish, .receive,
    .receive]

/-- A scan of the two bundles: both are listed by name, with their sizes. -/
theorem scans_complete_outOfOrder :
    twoBundles.top.Sound ∧ (∀ turn ∈ untilListed ++ outOfOrder, turn.isCalm = true) ∧
    ∃ s, (Discovery.mk { dir := ⟨"/A"⟩ } twoBundles 2 [] []).takeAll?
        (untilListed ++ outOfOrder) = some s ∧
      s.scans = [.completed 2] ∧
      s.inventory.apps.value.map (fun r => (r.name, r.sizeBytes)) =
        [("a", some 0), ("b", some 3)] := by
  have hsound : twoBundles.top.Sound := by decide +kernel
  have hcalm : ∀ turn ∈ untilListed ++ outOfOrder, turn.isCalm = true := by decide
  let u : Discovery := ⟨{ dir := ⟨"/A"⟩, nextId := 3 }, twoBundles, 2, [.listed twoListed], []⟩
  have hlisted : (Discovery.mk { dir := ⟨"/A"⟩ } twoBundles 2 [] []).takeAll? untilListed =
      some u := by
    simp [takeAll?, untilListed, take?, ScanStage.turn?, listFolder_twoBundles, advance, u,
      Inventory.apps]
    rfl
  have hresults : (u.takeAll? outOfOrder).map
      (fun s => (s.scans.map fun stage => stage.result?.isSome,
        s.inventory.apps.value.map fun r => (r.name, r.sizeBytes))) =
      some ([true], [("a", some 0), ("b", some 3)]) := by decide +kernel
  obtain ⟨s, hs, hresult⟩ := Option.map_eq_some_iff.mp hresults
  obtain ⟨hended, happs⟩ := Prod.mk.inj hresult
  obtain ⟨stage, hone, hstage⟩ := List.map_eq_singleton_iff.mp hended
  have hrun := takeAll?_append_eq_some_iff.mpr ⟨u, hlisted, hs⟩
  have hunused : ({ dir := ⟨"/A"⟩ } : Inventory).owner = ({} : AppOwner).receiveAll [] := rfl
  have hall := scans_complete hunused rfl hsound hcalm hrun
  have hcompleted := (hall.1 _ rfl).2.1 stage hone hstage
  refine ⟨hsound, hcalm, s, hrun, ?_, happs⟩
  rw [hone, hcompleted]
  rfl

end Discovery

end Reclaim

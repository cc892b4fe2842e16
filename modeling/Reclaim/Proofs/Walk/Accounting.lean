import Reclaim.Proofs.Walk.Totals

/-!
# Scans count every entry

A scan and its walks go on turn by turn.  Between two items a walk may have to wait until there is
room for a line, and the scan takes the lines when it likes.  None of this touches the figures: what
the scan will have counted and published in the end is settled when it begins, and no turn changes
it.  A walk crashes only at a cadence of zero, which no scanner has, and ends early only when the
scan is dropped.

## Main definitions

* `Catalog.bytesFound`, `Catalog.figures` : the bytes that a scan finds, and the result that it has
  to give.
* `Relay.Walks`, `Survey.Goes` : how walks and scans go on, one case for each.
* `Relay.outlook` : what a walk will have counted and sent.
* `Survey.final` : the scan as it will be in the end.
* `Relay.remaining`, `Survey.remaining` : a bound on the turns that are still to come.

## Main results

* `Survey.Goes.final_eq`, `Survey.final_takeAll` : no turn changes the end of a scan.
* `Survey.Goes.remaining_lt`, `Survey.exists_take` : a scan ends, and does not get stuck before.
* `Survey.takeAll?_exact` : the figures of every scan.
-/

namespace Reclaim

/-- The bytes of all items that the walks of the directories of a catalog find. -/
def Catalog.bytesFound (found : Path → List Item) (catalog : Catalog) : Nat :=
  (catalog.toList.map fun root => ((found root.path).map itemBytes).sum).sum

/-- The result of a scan of a catalog: how many items the walks of its directories find, and the
count of their bytes. -/
def Catalog.figures (found : Path → List Item) (seconds : Double)
    (catalog : Catalog) : ScanResult where
  totalBytes := Bytes.wrap (catalog.bytesFound found)
  entriesVisited := (catalog.toList.map fun root => (found root.path).length).sum
  label := "Scan Complete"
  seconds := seconds

/-! ### Lines in front -/

namespace Tally

variable (home : Option Path) (every : Nat)

/-- The figures with one more line in front of the others. -/
def precede (line : String) (t : Tally) : Tally :=
  { t with labels := line :: t.labels }

theorem add_precede (line : String) (t : Tally) (item : Item) :
    add home every (t.precede line) item = (add home every t item).precede line := by
  cases item with
  | error => rfl
  | ok found => by_cases hdue : (t.entries + 1) % every = 0 <;> simp [add, precede, hdue]

theorem foldl_add_precede (line : String) (items : List Item) (t : Tally) :
    items.foldl (add home every) (t.precede line) =
      (items.foldl (add home every) t).precede line := by
  induction items generalizing t with
  | nil => rfl
  | cons item items ih => rw [List.foldl_cons, List.foldl_cons, add_precede, ih]

end Tally

/-! ### Walks -/

namespace Relay

variable {home : Option Path} {every : Nat} {heard : Bool} {r r' : Relay}

/-- How a walk goes on, one case for each turn. -/
inductive Walks (home : Option Path) (every : Nat) (heard : Bool) (r : Relay) : Relay → Prop
  | ended (hstage : r.stage = .going []) : Walks home every heard r { r with stage := .ended }
  | unread {e : ItemError} {rest : List Item}
    (hstage : r.stage = .going (.error e :: rest)) :
    Walks home every heard r { r with stage := .going rest, entries := r.entries + 1 }
  | crashed {found : Found} {rest : List Item}
    (hstage : r.stage = .going (.ok found :: rest)) (hzero : every = 0) :
    Walks home every heard r { r with stage := .crashed, entries := r.entries + 1 }
  | due {found : Found} {rest : List Item}
    (hstage : r.stage = .going (.ok found :: rest)) (hdue : (r.entries + 1) % every = 0) :
    Walks home every heard r { r with stage := .sending found rest, entries := r.entries + 1 }
  | counted {found : Found} {rest : List Item}
    (hstage : r.stage = .going (.ok found :: rest)) (hdue : (r.entries + 1) % every ≠ 0) :
    Walks home every heard r { r with
      stage := .going rest
      entries := r.entries + 1
      bytes := Bytes.add r.bytes (found.size.getD 0) }
  | unheard {found : Found} {rest : List Item}
    (hstage : r.stage = .sending found rest) (hunheard : heard = false) :
    Walks home every heard r { r with stage := .ended }
  | sent {found : Found} {rest : List Item}
    (hstage : r.stage = .sending found rest) (hroom : r.channel.length < capacity) :
    Walks home every heard r { r with
      stage := .going rest
      bytes := Bytes.add r.bytes (found.size.getD 0)
      channel := r.channel ++ [found.path.progressLabel home] }

theorem walks_of_walk? (h : r.walk? home every heard = some r') :
    r.Walks home every heard r' := by
  unfold walk? at h
  split at h
  next hstage =>
    cases h
    exact .ended hstage
  next hstage =>
    cases h
    exact .unread hstage
  next hstage =>
    simp only at h
    split at h
    next hzero =>
      cases h
      exact .crashed hstage hzero
    next =>
      split at h
      next hdue =>
        cases h
        exact .due hstage hdue
      next hdue =>
        cases h
        exact .counted hstage hdue
  next hstage =>
    split at h
    next hunheard =>
      cases h
      exact .unheard hstage (by simpa using hunheard)
    next =>
      split at h
      next hroom =>
        cases h
        exact .sent hstage hroom
      next => cases h
  next => cases h
  next => cases h

/-- What a walk will have counted, and the lines that the scan will still take from it, if the scan
is not dropped. -/
def outlook (home : Option Path) (every : Nat) (r : Relay) : Tally :=
  match r.stage with
  | .going rest => rest.foldl (Tally.add home every) ⟨r.bytes, r.entries, r.channel⟩
  | .sending found rest =>
    rest.foldl (Tally.add home every)
      ⟨Bytes.add r.bytes (found.size.getD 0), r.entries,
        r.channel ++ [found.path.progressLabel home]⟩
  | .ended => ⟨r.bytes, r.entries, r.channel⟩
  | .crashed => ⟨0, 0, r.channel⟩

/-- How often a walk can still go on, with the lines that are still to be taken. -/
def remaining (r : Relay) : Nat :=
  r.channel.length + match r.stage with
    | .going rest => 3 * rest.length + 1
    | .sending _ rest => 3 * rest.length + 3
    | .ended | .crashed => 0

/-- A walk does not change what it will have counted. -/
theorem Walks.outlook_eq (h : r.Walks home every true r') (hevery : 0 < every) :
    r'.outlook home every = r.outlook home every := by
  cases h with
  | ended hstage => simp [outlook, hstage]
  | unread hstage => simp [outlook, hstage, Tally.add]
  | crashed hstage hzero => exact absurd hzero hevery.ne'
  | due hstage hdue => simp [outlook, hstage, Tally.add, hdue]
  | counted hstage hdue => simp [outlook, hstage, Tally.add, hdue]
  | unheard hstage hunheard => cases hunheard
  | sent hstage hroom => simp [outlook, hstage]

/-- A walk comes closer to its end. -/
theorem Walks.remaining_lt (h : r.Walks home every heard r') : r'.remaining < r.remaining := by
  cases h with
  | ended hstage => simp [remaining, hstage]
  | unread hstage | crashed hstage | due hstage | counted hstage =>
    simp only [remaining, hstage, List.length_cons]
    omega
  | unheard hstage => simp [remaining, hstage]
  | sent hstage =>
    simp only [remaining, hstage, List.length_append, List.length_singleton]
    omega

/-- A walk divides by zero only at a cadence of zero. -/
theorem Walks.not_crashed (h : r.Walks home every heard r') (hevery : 0 < every) :
    r'.stage ≠ .crashed := by
  cases h with
  | crashed hstage hzero => exact absurd hzero hevery.ne'
  | _ => simp

/-- The scan takes a line that it was to take. -/
theorem outlook_receive {line : String} {channel : List String} (h : r.channel = line :: channel) :
    r.outlook home every = ({ r with channel }.outlook home every).precede line := by
  obtain ⟨stage, bytes, entries, channel'⟩ := r
  obtain rfl : channel' = line :: channel := h
  cases stage with
  | going rest => exact Tally.foldl_add_precede home every line rest ⟨bytes, entries, channel⟩
  | sending found rest =>
    exact Tally.foldl_add_precede home every line rest
      ⟨Bytes.add bytes (found.size.getD 0), entries, channel ++ [found.path.progressLabel home]⟩
  | ended => rfl
  | crashed => rfl

/-- The figures of a walk that is over are those that it was to have. -/
theorem outlook_of_figures (home : Option Path) (every : Nat) {one : Tally}
    (h : r.figures? = some one) :
    r.outlook home every = one ∧ one.labels = [] := by
  obtain ⟨stage, bytes, entries, channel⟩ := r
  match stage, channel with
  | .ended, [] =>
    cases h
    exact ⟨rfl, rfl⟩
  | .crashed, [] =>
    cases h
    exact ⟨rfl, rfl⟩

/-- While the scan listens, either the walk goes on, or there is a line to take, or the figures are
there. -/
theorem exists_next (home : Option Path) (every : Nat) (r : Relay) :
    (r.walk? home every true).isSome ∨ (∃ line channel, r.channel = line :: channel) ∨
      r.figures?.isSome := by
  obtain ⟨stage, bytes, entries, channel⟩ := r
  cases channel with
  | cons line channel => exact .inr (.inl ⟨line, channel, rfl⟩)
  | nil =>
    match stage with
    | .going [] => exact .inl rfl
    | .going (.error _ :: rest) => exact .inl rfl
    | .going (.ok found :: rest) =>
      refine .inl ?_
      simp only [walk?]
      split
      · rfl
      · split <;> rfl
    | .sending found rest => exact .inl rfl
    | .ended => exact .inr (.inr rfl)
    | .crashed => exact .inr (.inr rfl)

end Relay

/-! ### Scans -/

namespace Survey

variable {look : Sight} {s s' : Survey} {turn : SurveyTurn} {turns : List SurveyTurn}

/-- How a scan goes on, one case for each turn. -/
inductive Goes (look : Sight) (s : Survey) : SurveyTurn → Survey → Prop
  | missing {root : ReclaimRoot} {roots : List ReclaimRoot} (hstage : s.stage = .choosing)
    (hroots : s.roots = root :: roots) (hlook : look s.disk root.path = none) :
    Goes look s .visit { s with roots }
  | entered {root : ReclaimRoot} {roots : List ReclaimRoot}
    {items : List Item} (hstage : s.stage = .choosing)
    (hroots : s.roots = root :: roots) (hlook : look s.disk root.path = some items) :
    Goes look s .visit { s with
      roots
      signals := s.signals.log ("Scanning " ++ root.label ++ "...")
      stage := .walking (.ofItems items) }
  | walked {r r' : Relay} (hstage : s.stage = .walking r)
    (hwalks : r.Walks s.home s.every true r') :
    Goes look s .walk { s with stage := .walking r' }
  | strayed {r r' : Relay} (hstage : s.stage = .dropped (some r))
    (hwalks : r.Walks s.home s.every false r') :
    Goes look s .walk { s with stage := .dropped (some r') }
  | received {r : Relay} {line : String} {channel : List String} (hstage : s.stage = .walking r)
    (hchannel : r.channel = line :: channel) :
    Goes look s .receive { s with
      signals := s.signals.log line, stage := .walking { r with channel } }
  | joined {r : Relay} {one : Tally} (hstage : s.stage = .walking r)
    (hfigures : r.figures? = some one) :
    Goes look s .join { s with total := addFigures s.total one, stage := .choosing }
  | finished (hstage : s.stage = .choosing) (hroots : s.roots = []) : Goes look s .finish s.close
  | dropped {r : Option Relay} (hrelay : s.relay? = r) (hstage : s.isDropped = false)
    (hresult : s.result? = none) : Goes look s .drop { s with stage := .dropped r }

theorem goes_of_take? (h : s.take? look turn = some s') : s.Goes look turn s' := by
  unfold take? at h
  cases turn with
  | visit =>
    simp only at h
    split at h
    next root roots hstage hroots =>
      split at h
      next hlook =>
        cases h
        exact .missing hstage hroots hlook
      next items hlook =>
        cases h
        exact .entered hstage hroots hlook
    next => cases h
  | walk =>
    simp only at h
    split at h
    next r hstage =>
      obtain ⟨r', hwalk, rfl⟩ := Option.map_eq_some_iff.mp h
      exact .walked hstage (Relay.walks_of_walk? hwalk)
    next r hstage =>
      obtain ⟨r', hwalk, rfl⟩ := Option.map_eq_some_iff.mp h
      exact .strayed hstage (Relay.walks_of_walk? hwalk)
    next => cases h
  | receive =>
    simp only at h
    split at h
    next r hstage =>
      split at h
      next => cases h
      next line channel hchannel =>
        cases h
        exact .received hstage hchannel
    next => cases h
  | join =>
    simp only at h
    split at h
    next r hstage =>
      obtain ⟨one, hfigures, rfl⟩ := Option.map_eq_some_iff.mp h
      exact .joined hstage hfigures
    next => cases h
  | finish =>
    simp only at h
    split at h
    next hstage hroots =>
      cases h
      exact .finished hstage hroots
    next => cases h
  | drop =>
    simp only at h
    split at h
    next hstage =>
      cases h
      exact .dropped (by rw [relay?, hstage]) (by rw [isDropped, hstage]) (by rw [result?, hstage])
    next r hstage =>
      cases h
      exact .dropped (by rw [relay?, hstage]) (by rw [isDropped, hstage]) (by rw [result?, hstage])
    next => cases h

/-! ### The end of a scan -/

/-- The scan as it will be in the end, if it is not dropped. -/
def final (look : Sight) (s : Survey) : Survey :=
  let account := Scanner.accountAll s.home s.every (look s.disk) s.roots
  let closeWith (acc : Tally × Signals) := close { s with total := acc.1, signals := acc.2 }
  match s.stage with
  | .choosing => closeWith (account (s.total, s.signals))
  | .walking r =>
    let one := r.outlook s.home s.every
    closeWith (account (addFigures s.total one, one.labels.foldl Signals.log s.signals))
  | .finished _ => s
  | .dropped _ => s

theorem Goes.every_eq (h : s.Goes look turn s') : s'.every = s.every := by
  cases h <;> rfl

/-- What was dropped is not taken up again. -/
theorem Goes.not_dropped (h : s.Goes look turn s') (hs : s'.isDropped = false) :
    s.isDropped = false := by
  cases h with
  | missing hstage | entered hstage | walked hstage | received hstage | joined hstage
    | finished hstage => simp [isDropped, hstage]
  | strayed => cases hs
  | dropped => cases hs

/-- No turn changes the end of a scan, unless the scan is dropped. -/
theorem Goes.final_eq (h : s.Goes look turn s') (hevery : 0 < s.every)
    (hs : s'.isDropped = false) : s'.final look = s.final look := by
  cases h with
  | missing hstage hroots hlook =>
    simp [final, hstage, hroots, Scanner.accountAll, Scanner.account, hlook, close]
  | entered hstage hroots hlook =>
    -- what the walk will have counted when it begins are the figures of all its items
    simp [final, hstage, hroots, Scanner.accountAll, Scanner.account, hlook, close,
      Relay.outlook, Relay.ofItems, Tally.ofItems]
  | walked hstage hwalks => simp [final, hstage, hwalks.outlook_eq hevery, close]
  | received hstage hchannel =>
    simp [final, hstage, Relay.outlook_receive hchannel, Tally.precede, addFigures, close]
  | joined hstage hfigures =>
    obtain ⟨hone, hlabels⟩ := Relay.outlook_of_figures s.home s.every hfigures
    simp [final, hstage, hone, hlabels, close]
  | finished hstage hroots =>
    simp [final, hstage, hroots, Scanner.accountAll, close]
  | strayed => cases hs
  | dropped => cases hs

theorem exists_goes_of_takeAll? (h : s.takeAll? look (turn :: turns) = some s') :
    ∃ t, s.Goes look turn t ∧ t.takeAll? look turns = some s' := by
  rw [takeAll?, List.foldlM_cons, Option.bind_eq_bind, Option.bind_eq_some_iff] at h
  exact h.imp fun t ⟨htake, hrest⟩ => ⟨goes_of_take? htake, hrest⟩

/-- What every turn keeps is kept. -/
theorem kept_takeAll (P : Survey → Prop) (h : s.takeAll? look turns = some s')
    (hkeeps : ∀ s turn s', s.Goes look turn s' → P s → P s') (hs : P s) : P s' := by
  induction turns generalizing s with
  | nil =>
    cases h
    exact hs
  | cons turn turns ih =>
    obtain ⟨t, hgoes, hrest⟩ := exists_goes_of_takeAll? h
    exact ih hrest (hkeeps s turn t hgoes hs)

/-- Whatever happens, the end of a scan was settled from the beginning. -/
theorem final_takeAll (h : s.takeAll? look turns = some s') (hevery : 0 < s.every)
    (hs : s'.isDropped = false) : s'.final look = s.final look := by
  refine (kept_takeAll (fun t => 0 < t.every ∧ (t.isDropped = false →
    t.final look = s.final look)) h ?_ ⟨hevery, fun _ => rfl⟩).2 hs
  rintro t turn t' hgoes ⟨hpos, hfinal⟩
  refine ⟨hgoes.every_eq ▸ hpos, fun ht' => ?_⟩
  calc t'.final look = t.final look := hgoes.final_eq hpos ht'
    _ = s.final look := hfinal (hgoes.not_dropped ht')

/-! ### Scans end -/

/-- How many turns are still to come at most. -/
def remaining (look : Sight) (s : Survey) : Nat :=
  let rest := (s.roots.map fun root => 3 * ((look s.disk root.path).getD []).length + 3).sum
  match s.stage with
  | .choosing => rest + 1
  | .walking r => r.remaining + 1 + (rest + 1)
  | .finished _ => 0
  | .dropped r => r.elim 0 Relay.remaining

/-- A scan comes closer to its end, also one that was dropped. -/
theorem Goes.remaining_lt (h : s.Goes look turn s') : s'.remaining look < s.remaining look := by
  cases h with
  | missing hstage hroots hlook => simp [remaining, hstage, hroots, hlook]
  | entered hstage hroots hlook =>
    simp only [remaining, hstage, hroots, hlook, Relay.ofItems, Relay.remaining, Option.getD_some,
      List.map_cons, List.sum_cons, List.length_nil]
    omega
  | walked hstage hwalks =>
    have hless := hwalks.remaining_lt
    simp only [remaining, hstage]
    omega
  | strayed hstage hwalks => simpa [remaining, hstage] using hwalks.remaining_lt
  | received hstage hchannel =>
    simp only [remaining, hstage, Relay.remaining, hchannel, List.length_cons]
    omega
  | joined hstage hfigures =>
    simp only [remaining, hstage]
    omega
  | finished hstage hroots => simp [remaining, close, hstage]
  | dropped hrelay hstage hresult =>
    obtain ⟨home, every, disk, roots, seconds, total, phase, signals, stage⟩ := s
    cases stage with
    | choosing =>
      cases hrelay
      simp [remaining, relay?]
    | walking r =>
      cases hrelay
      simp only [remaining, relay?, Option.elim_some]
      omega
    | finished result => cases hresult
    | dropped r => cases hstage

theorem length_le_remaining (h : s.takeAll? look turns = some s') :
    turns.length ≤ s.remaining look := by
  induction turns generalizing s with
  | nil => exact Nat.zero_le _
  | cons turn turns ih =>
    obtain ⟨t, hgoes, hrest⟩ := exists_goes_of_takeAll? h
    exact (ih hrest).trans_lt hgoes.remaining_lt

/-- A scan that is neither dropped nor at its end goes on: nothing waits for ever for room in the
channel, for a line or for the figures. -/
theorem exists_take (look : Sight) (hdropped : s.isDropped = false) (hresult : s.result? = none) :
    ∃ turn, turn ≠ .drop ∧ (s.take? look turn).isSome := by
  obtain ⟨home, every, disk, roots, seconds, total, phase, signals, stage⟩ := s
  cases stage with
  | choosing =>
    cases roots with
    | nil => exact ⟨.finish, by simp, rfl⟩
    | cons root roots =>
      refine ⟨.visit, by simp, ?_⟩
      simp only [take?]
      split <;> rfl
  | walking r =>
    rcases r.exists_next home every with hwalk | ⟨line, channel, hchannel⟩ | hfigures
    · exact ⟨.walk, by simp, by simpa [take?] using hwalk⟩
    · exact ⟨.receive, by simp, by simp [take?, hchannel]⟩
    · exact ⟨.join, by simp, by simpa [take?] using hfigures⟩
  | finished result => cases hresult
  | dropped r => cases hdropped

/-! ### No division by zero -/

/-- No walk has divided by zero. -/
theorem Goes.not_crashed (h : s.Goes look turn s') (hevery : 0 < s.every)
    (hs : ∀ r, s.relay? = some r → r.stage ≠ .crashed) :
    ∀ r, s'.relay? = some r → r.stage ≠ .crashed := by
  cases h with
  | missing hstage => simp [relay?, hstage]
  | entered => simp [relay?, Relay.ofItems]
  | walked hstage hwalks => simpa [relay?] using hwalks.not_crashed hevery
  | strayed hstage hwalks => simpa [relay?] using hwalks.not_crashed hevery
  | received hstage hchannel => simpa [relay?] using hs _ (by rw [relay?, hstage])
  | joined => simp [relay?]
  | finished => simp [relay?, close]
  | dropped hrelay =>
    intro r hr
    exact hs r (hrelay.trans hr)

theorem not_crashed_takeAll (h : s.takeAll? look turns = some s') (hevery : 0 < s.every)
    (hs : ∀ r, s.relay? = some r → r.stage ≠ .crashed) :
    ∀ r, s'.relay? = some r → r.stage ≠ .crashed := by
  refine (kept_takeAll (fun t => 0 < t.every ∧ ∀ r, t.relay? = some r → r.stage ≠ .crashed) h ?_
    ⟨hevery, hs⟩).2
  rintro t turn t' hgoes ⟨hpos, ht⟩
  exact ⟨hgoes.every_eq ▸ hpos, hgoes.not_crashed hpos ht⟩

/-! ### The figures of a scan -/

/-- A scan that has come to its end is as it was to be. -/
theorem eq_final_of_result (h : s.takeAll? look turns = some s') (hevery : 0 < s.every)
    {result : ScanResult} (hresult : s'.result? = some result) :
    s' = s.final look ∧ s'.stage = .finished result := by
  have hstage : s'.stage = .finished result := by
    obtain ⟨home, every, disk, roots, seconds, total, phase, signals, stage⟩ := s'
    cases stage with
    | finished result' =>
      cases hresult
      rfl
    | _ => cases hresult
  refine ⟨?_, hstage⟩
  rw [← final_takeAll h hevery (by rw [isDropped, hstage]), final, hstage]

/-- **What a scan adds up.** A scanner has any catalog and any cadence, zero included, and may have
scanned and published before.  Its scan goes on in any order of turns, and the walks find any items,
also some that cannot be read.  No walk divides by zero, the scan ends after a bounded number of
turns and does not get stuck before, and unless it is dropped its result counts all items that the
walks of the directories in the catalog find, and adds up their bytes, which is the exact sum if a
count can hold it: a directory that is missing has no items, and an item that cannot be read has no
bytes.  The cadence, the order of the turns and what was before do not matter.  In the end the scan
is done, the total is published, and the files are as they were.  `Scanner.run` counts what is on
the disk, and is what every scan of the disk comes to. -/
theorem takeAll?_exact (home : Option Path) (seconds : Double) (catalog : Catalog) (every : Nat)
    (phase : Published ScanPhase) (signals : Signals) (d : Disk) :
    let scanner := { Scanner.ofCatalog catalog every with phase }
    let start := begun home seconds scanner d signals
    (∀ (look : Sight) (turns : List SurveyTurn) (s : Survey),
        start.takeAll? look turns = some s →
      let found (p : Path) := (look d p).getD []
      (∀ r, s.relay? = some r → r.stage ≠ .crashed) ∧
      turns.length ≤ (catalog.toList.map fun root => 3 * (found root.path).length + 3).sum + 1 ∧
      (s.isDropped = false → s.result? = none →
        ∃ turn, turn ≠ .drop ∧ (s.take? look turn).isSome) ∧
      ∀ result, s.result? = some result →
        result = catalog.figures found seconds ∧
        (catalog.bytesFound found < Bytes.limit → result.totalBytes = catalog.bytesFound found) ∧
        s.phase.value = .done ∧ s.signals.bytes.value = result.totalBytes ∧ s.disk = d) ∧
    (scanner.run home seconds d signals).1 = catalog.figures d.scanned seconds ∧
    ∀ (turns : List SurveyTurn) (s : Survey) (result : ScanResult),
      start.takeAll? Disk.look turns = some s → s.result? = some result →
      (result, { scanner with phase := s.phase }, s.signals) =
        scanner.run home seconds d signals := by
  intro scanner start
  have hevery : 0 < start.every := Nat.le_max_right every 1
  refine ⟨fun look turns s h => ⟨?_, length_le_remaining h, exists_take look, ?_⟩, ?_, ?_⟩
  · exact not_crashed_takeAll h hevery (by simp [start, begun, relay?])
  · intro result hresult
    obtain ⟨rfl, hstage⟩ := eq_final_of_result h hevery hresult
    obtain ⟨hbytes, hentries⟩ := Scanner.accountAll_eq home scanner.every (look d)
      catalog.toList ({}, (signals.setBusy true).setBytes 0) (n := 0) rfl
    rw [Nat.zero_add] at hbytes hentries
    have hfigures : result = catalog.figures (fun p => (look d p).getD []) seconds := by
      cases hstage
      rw [Catalog.figures, Catalog.bytesFound, ← hbytes, ← hentries]
      rfl
    refine ⟨hfigures, fun hsmall => ?_, ?_⟩
    · rw [hfigures]
      exact Bytes.wrap_of_lt hsmall
    · cases hstage
      exact ⟨rfl, rfl, rfl⟩
  · obtain ⟨hbytes, hentries⟩ := Scanner.totals_run home d seconds scanner signals
    rw [Catalog.figures]
    exact congrArg₂ (ScanResult.mk · · Scanner.doneLine seconds) hbytes hentries
  · intro turns s result h hresult
    obtain ⟨rfl, hstage⟩ := eq_final_of_result h hevery hresult
    cases hstage
    rw [Scanner.run_eq]
    rfl

/-- A directory with an entry that cannot be read, a file and a folder; nothing is anywhere else. -/
def guardedSight : Sight := fun _ p =>
  if p.text = "/c" then
    some [.error (.unlisted ⟨⟨"/c/x"⟩, .system .notPermitted⟩), .ok ⟨⟨"/c/f"⟩, some 3⟩,
      .ok ⟨⟨"/c/d"⟩, none⟩]
  else none

/-- The directory, and one that is missing. -/
def guardedCatalog : Catalog where
  user := [⟨⟨"/c"⟩, .user⟩, ⟨⟨"/gone"⟩, .user⟩]

/-- A scan that publishes every path; one line is taken at once, the other one late. -/
def guardedTurns : List SurveyTurn :=
  [.visit, .walk, .walk, .walk, .receive, .walk, .walk, .walk, .receive, .join, .visit, .finish]

/-- The scan of the directory at a cadence of zero. -/
theorem takeAll?_exact_guarded :
    ∃ s result, (begun none .nan (.ofCatalog guardedCatalog 0) ⟨.folder []⟩ {}).takeAll?
        guardedSight guardedTurns = some s ∧ s.result? = some result ∧
      result = ⟨3, 3, "Scan Complete", .nan⟩ ∧ s.disk = ⟨.folder []⟩ := by
  have hends : (((begun none .nan (.ofCatalog guardedCatalog 0) ⟨.folder []⟩ {}).takeAll?
      guardedSight guardedTurns).bind result?).isSome = true := by decide +kernel
  obtain ⟨result, hbind⟩ := Option.isSome_iff_exists.mp hends
  obtain ⟨s, h, hresult⟩ := Option.bind_eq_some_iff.mp hbind
  obtain ⟨-, -, -, hall⟩ := (takeAll?_exact none .nan guardedCatalog 0 ⟨.idle, 0⟩ {}
    ⟨.folder []⟩).1 guardedSight guardedTurns s h
  obtain ⟨hfigures, -, -, -, hdisk⟩ := hall result hresult
  refine ⟨s, result, h, hresult, hfigures.trans ?_, hdisk⟩
  decide

end Survey

end Reclaim

import Stockroom.Proofs.Edit

/-!
# The two snapshots of a working set

Which snapshots a working set has depends on one thing of its history: what it held each time a snapshot
was asked for (`WorkingSet.askedFor`). The first of these is the baseline, the second the snapshot to be
saved, and the others are refused. No other edit touches either (`WorkingSet.Shows.edit`), so one step
extends the list or leaves it alone, and a list that was extended keeps what it had.

It decides what a working set answers, too: until the first snapshot there are no changes to be told,
from then on they are those up to now, and with the second they are settled
(`WorkingSet.snapshot_protocol`).
-/

namespace Stockroom.WorkingSet

/-- The rows of a working set, empty at first, at each moment a snapshot was asked for. -/
def askedFor : List Edit → List Snapshot
  | [] => []
  | .takeSnapshot :: past => askedFor past ++ [(empty.after past).capture]
  | _ :: past => askedFor past

/-- The snapshots of a working set are the first two that were asked for. -/
structure Shows (asked : List Snapshot) (w : WorkingSet) : Prop where
  baseline : w.baseline = asked[0]?
  presave : w.presave = asked[1]?

variable {w : WorkingSet} {asked : List Snapshot} {ed : Edit}

/-! ## Histories -/

theorem after_append (w : WorkingSet) (later past : List Edit) :
    w.after (later ++ past) = (w.after past).after later := by
  induction later with
  | nil => rfl
  | cons ed later ih => rw [List.cons_append, after, after, ih]

theorem askedFor_of_ne (h : ed ≠ .takeSnapshot) (past : List Edit) :
    askedFor (ed :: past) = askedFor past := by
  cases ed with
  | takeSnapshot => exact absurd rfl h
  | _ => rfl

/-- What was asked for stays so. -/
theorem askedFor_append (later past : List Edit) :
    ∃ more, askedFor (later ++ past) = askedFor past ++ more := by
  induction later with
  | nil => exact ⟨[], (List.append_nil _).symm⟩
  | cons ed later ih =>
      obtain ⟨more, hmore⟩ := ih
      by_cases hed : ed = .takeSnapshot
      · subst hed
        refine ⟨more ++ [(empty.after (later ++ past)).capture], ?_⟩
        rw [List.cons_append, askedFor, hmore, List.append_assoc]
      · exact ⟨more, by rw [List.cons_append, askedFor_of_ne hed, hmore]⟩

/-! ## What the snapshots decide -/

namespace Shows

/-- Taking a snapshot fills a free place, or is refused. -/
theorem takeSnapshot_eq : w.Shows asked →
    w.takeSnapshot = match asked with
      | [] => .ok { w with baseline := some w.capture }
      | [_] => .ok { w with presave := some w.capture }
      | _ :: _ :: _ => .error .snapshotsExhausted := by
  rintro ⟨hbaseline, hpresave⟩
  match asked with
  | [] => exact takeSnapshot_first hbaseline hpresave
  | [B] => simp only [takeSnapshot, hpresave, hbaseline, List.getElem?_cons_zero,
      List.getElem?_cons_succ, List.getElem?_nil]
  | B :: L :: rest => simp only [takeSnapshot, hpresave, List.getElem?_cons_zero,
      List.getElem?_cons_succ]

/-- Changes are those since the first snapshot, up to now or up to the second. -/
theorem changes_eq : w.Shows asked →
    w.changes = match asked with
      | [] => .error .snapshotMissing
      | [B] => .ok (B.changesTo w.capture)
      | B :: L :: _ => .ok (B.changesTo L) := by
  rintro ⟨hbaseline, hpresave⟩
  rw [changes, hbaseline, hpresave]
  match asked with
  | [] | [_] | _ :: _ :: _ => rfl

theorem edit (h : w.Shows asked) (hed : ed ≠ .takeSnapshot) : (w.edit ed).Shows asked := by
  obtain ⟨hbaseline, hpresave⟩ := w.snapshots_edit hed
  exact ⟨hbaseline.trans h.baseline, hpresave.trans h.presave⟩

theorem takeSnapshot (h : w.Shows asked) :
    (w.edit .takeSnapshot).Shows (asked ++ [w.capture]) := by
  have htake := h.takeSnapshot_eq
  obtain ⟨hbaseline, hpresave⟩ := h
  match asked with
  | [] =>
      simp only [WorkingSet.edit, htake]
      exact ⟨rfl, hpresave⟩
  | [B] =>
      simp only [WorkingSet.edit, htake]
      exact ⟨hbaseline, rfl⟩
  | B :: L :: rest =>
      simp only [WorkingSet.edit, htake]
      exact ⟨hbaseline, hpresave⟩

end Shows

/-- After any edits the snapshots are the first two that were asked for. -/
theorem shows_after (edits : List Edit) : (empty.after edits).Shows (askedFor edits) := by
  induction edits with
  | nil => exact ⟨rfl, rfl⟩
  | cons ed past ih =>
      by_cases hed : ed = .takeSnapshot
      · subst hed
        exact ih.takeSnapshot
      · rw [askedFor_of_ne hed]
        exact ih.edit hed

/-! ## The protocol -/

/-- What was asked for first and second decides the snapshots of a working set from then on. -/
theorem shows_later (edits later : List Edit) :
    ∃ more, ((empty.after edits).after later).Shows (askedFor edits ++ more) := by
  obtain ⟨more, hmore⟩ := askedFor_append later edits
  refine ⟨more, ?_⟩
  rw [← hmore, ← after_append]
  exact shows_after (later ++ edits)

/-- What is true of a working set by the snapshots asked for so far. The rest of a list is what was asked
for when there was no place left. -/
structure Protocol (asked : List Snapshot) (w : WorkingSet) : Prop where
  missing : asked = [] → w.changes = .error .snapshotMissing
  /-- The baseline is what was there when it was taken, whatever is done later. -/
  baseline : ∀ B rest, asked = B :: rest → ∀ later, (w.after later).baseline = some B
  between : ∀ B, asked = [B] → w.changes = .ok (B.changesTo w.capture)
  settled : ∀ B L rest, asked = B :: L :: rest →
    ∀ later, (w.after later).changes = .ok (B.changesTo L)
  /-- The first two are granted. -/
  granted : asked.length < 2 → ∃ w', w.takeSnapshot = .ok w' ∧ w'.partitions = w.partitions
  /-- Any other one is refused, which changes nothing. -/
  refused : ∀ B L rest, asked = B :: L :: rest → ∀ later,
    (w.after later).takeSnapshot = .error .snapshotsExhausted
      ∧ (w.after later).edit .takeSnapshot = w.after later

/-- The snapshots of a working set follow their protocol after any edits. -/
theorem snapshot_protocol (edits : List Edit) : Protocol (askedFor edits) (empty.after edits) where
  missing hnone := by
    have hnow := shows_after edits
    rw [hnone] at hnow
    exact hnow.changes_eq
  baseline B rest hasked later := by
    obtain ⟨more, hlater⟩ := shows_later edits later
    rw [hasked] at hlater
    exact hlater.baseline
  between B hasked := by
    have hnow := shows_after edits
    rw [hasked] at hnow
    exact hnow.changes_eq
  settled B L rest hasked later := by
    obtain ⟨more, hlater⟩ := shows_later edits later
    rw [hasked] at hlater
    exact hlater.changes_eq
  granted hfew := by
    have htake := (shows_after edits).takeSnapshot_eq
    generalize askedFor edits = asked at hfew htake
    match asked with
    | [] | [_] => exact ⟨_, htake, rfl⟩
    | _ :: _ :: _ =>
        simp only [List.length_cons] at hfew
        omega
  refused B L rest hasked later := by
    obtain ⟨more, hlater⟩ := shows_later edits later
    rw [hasked] at hlater
    have hrefused : ((empty.after edits).after later).takeSnapshot = .error .snapshotsExhausted :=
      hlater.takeSnapshot_eq
    refine ⟨hrefused, ?_⟩
    rw [WorkingSet.edit, hrefused]
    rfl

-- A product put in between the two snapshots counts as created, also when it is taken out again.
example :
    (empty.after [.takeSnapshot, .delete .product (.sequential 0), .takeSnapshot,
      .insert (.product ⟨.sequential 0, "Lamp", "LAMP-1", 10, 3499⟩), .takeSnapshot]).changes.map
        (fun c => (c.get .product).kindOf? (.sequential 0))
      = .ok (some .created) := by rfl

end Stockroom.WorkingSet

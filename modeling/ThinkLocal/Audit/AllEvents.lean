import ThinkLocal.Audit.AuditLog
import ThinkLocal.Foundation.NewestFirst

/-!
# The events of all tables

`getAllEvents` joins the last rows of both tables and puts them in order by their timestamps.  The rows of
a table are cut by their ids, which for the events of peers is the order of their imports.
-/

namespace ThinkLocal.Audit

open Foundation AuditLog

/-- A row of one of the tables. -/
abbrev AnyRow := AuditRow ⊕ PeerAuditRow

def timestampOf : AnyRow → String
  | .inl row => row.event.timestamp
  | .inr row => row.event.timestamp

/-- The rows that the two queries give. -/
def queriedRows (log : AuditLog) (limit : Nat) : List AnyRow :=
  (log.getEvents limit).map .inl ++ (log.db.peerEvents.reverse.take limit).map .inr

variable {κ : Type*} [LinearOrder κ] (collate : String → κ)

/-- `collate` gives the place of a text in the order of `localeCompare`. -/
def getAllEvents (log : AuditLog) (limit : Nat) : List AnyRow :=
  (newestFirst (fun row => collate (timestampOf row)) (queriedRows log limit)).take limit

/-- The rows of both tables. -/
def allRows (log : AuditLog) : List AnyRow :=
  log.db.events.map .inl ++ log.db.peerEvents.map .inr

/-- The rows that the queries leave out. -/
def unqueriedRows (log : AuditLog) (limit : Nat) : List AnyRow :=
  (log.db.events.reverse.drop limit).map .inl ++ (log.db.peerEvents.reverse.drop limit).map .inr

/-- At least `limit` rows of the queries are as new as each row that they leave out. -/
def CutLate (log : AuditLog) (limit : Nat) : Prop :=
  ∀ row ∈ unqueriedRows log limit,
    limit ≤ (queriedRows log limit).countP fun other =>
      collate (timestampOf row) ≤ collate (timestampOf other)

variable {log : AuditLog} {limit : Nat}

theorem perm_queriedRows : (queriedRows log limit ++ unqueriedRows log limit).Perm (allRows log) := by
  have hcut : ∀ {α : Type} (rows : List α) (f : α → AnyRow),
      ((rows.reverse.take limit).map f ++ (rows.reverse.drop limit).map f).Perm (rows.map f) := by
    intro α rows f
    rw [← List.map_append, List.take_append_drop]
    exact (List.reverse_perm rows).map f
  refine List.Perm.trans ?_ ((hcut log.db.events .inl).append (hcut log.db.peerEvents .inr))
  rw [queriedRows, unqueriedRows, getEvents, List.append_assoc, List.append_assoc]
  refine List.Perm.append_left _ ?_
  rw [← List.append_assoc, ← List.append_assoc]
  exact List.perm_append_comm.append_right _

/-- What is left out stands behind `limit` rows of its table. -/
theorem le_length_queriedRows (h : unqueriedRows log limit ≠ []) :
    limit ≤ (queriedRows log limit).length := by
  rw [unqueriedRows, ne_eq, List.append_eq_nil_iff, List.map_eq_nil_iff, List.map_eq_nil_iff,
    List.drop_eq_nil_iff, List.drop_eq_nil_iff, List.length_reverse, List.length_reverse] at h
  rw [queriedRows, getEvents, List.length_append, List.length_map, List.length_map,
    List.length_take, List.length_take, List.length_reverse, List.length_reverse]
  omega

/-- The events are the newest of both tables exactly if the queries leave out none that is newer. -/
theorem getAllEvents_newest_iff (log : AuditLog) (limit : Nat) :
    Newest (fun row => collate (timestampOf row)) (allRows log) limit
        (getAllEvents collate log limit) ↔ CutLate collate log limit := by
  rw [← Newest.perm perm_queriedRows]
  exact newest_take_iff le_length_queriedRows

/-! ## Imports of old events -/

/-- The events of a peer with two timestamps, in the order of their imports. -/
def importedLog (first second : String) : AuditLog :=
  openLog ⟨[], 1, [⟨1, ⟨first, "PEER_JOIN", "a", none, none, none, none⟩, "s", "h"⟩,
    ⟨2, ⟨second, "PEER_LEAVE", "a", none, none, none, none⟩, "t", "i"⟩], 3⟩ "private" "b"

/-- The event that was imported last hides a newer one. -/
theorem newer_event_hidden :
    ¬ Newest (fun row => timestampOf row)
      (allRows (importedLog "2026-01-02T00:00:00.000Z" "2026-01-01T00:00:00.000Z")) 1
      (getAllEvents (fun text => text)
        (importedLog "2026-01-02T00:00:00.000Z" "2026-01-01T00:00:00.000Z") 1) := by
  have hperm : ∀ log, (queriedRows log 1 ++ unqueriedRows log 1).Perm (allRows log) :=
    fun _ => perm_queriedRows
  rw [← Newest.perm (hperm _)]
  refine (not_congr (newest_take_iff le_length_queriedRows)).mpr ?_
  decide +kernel

end ThinkLocal.Audit

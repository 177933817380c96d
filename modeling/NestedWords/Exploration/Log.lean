import NestedWords.Operand
import NestedWords.Exploration.Worklist

/-!
# The log of a computation

A computation notes in order what it asks its operand, when it polls its monitor, and the
events that it reports. An event has a level, a message and named fields. Who follows the log
reads the events from a level on, and where the span begins and ends that they are in.
-/
namespace NestedWords

/-- How much an event matters; the most severe comes first. -/
inductive Level
  | error
  | warn
  | info
  | debug
  | trace
  deriving DecidableEq, Repr

namespace Level

def severity : Level → Nat
  | error => 0
  | warn => 1
  | info => 2
  | debug => 3
  | trace => 4

def name : Level → String
  | error => "ERROR"
  | warn => "WARN"
  | info => "INFO"
  | debug => "DEBUG"
  | trace => "TRACE"

/-- An event of level `l` is shown to someone who asked for this level. -/
def shows (threshold l : Level) : Bool := l.severity ≤ threshold.severity

theorem shows_trans {l m n : Level} (h : l.shows m = true) (h' : m.shows n = true) :
    l.shows n = true := by
  simp only [shows, decide_eq_true_eq] at h h' ⊢
  exact Nat.le_trans h' h

end Level

/-- A field of an event: a count or a text. -/
inductive FieldValue
  | number (n : Nat)
  | text (s : String)
  deriving DecidableEq, Repr

/-- What a computation reports. -/
inductive Event
  | seeded (initial : Nat)
  | cancelled (states : Nat)
  | processing (item : WorkItem)
  | reconciled (state old new moved : Nat)
  | progress (processed states components : Nat)
  | fixpoint (processed states components : Nat)
  | livenessFinished (live : Nat)
  | computed (summary : String)
  deriving DecidableEq, Repr

/-- The text of a work item in a report. -/
def WorkItem.describe : WorkItem → String
  | explore s => s!"ExploreState({s})"
  | reconcile source target =>
    "ReconcileCec \x7b source: " ++ toString source ++ ", target: " ++ toString target ++ " \x7d"
  | examine up hier =>
    "ExamineDoubleDecker \x7b up: " ++ toString up ++ ", hier: " ++ toString hier ++ " \x7d"

namespace Event

def level : Event → Level
  | seeded _ | cancelled _ | progress .. | computed _ => .info
  | reconciled .. | fixpoint .. | livenessFinished _ => .debug
  | processing _ => .trace

def message : Event → String
  | seeded _ => "seeded initial states"
  | cancelled _ => "cancelled"
  | processing _ => "processing"
  | reconciled .. => "reconciled component"
  | progress .. => "forward exploration in progress"
  | fixpoint .. => "forward fixpoint reached"
  | livenessFinished _ => "dead end computation finished"
  | computed _ => "computed reachable states"

def fields : Event → List (String × FieldValue)
  | seeded n => [("initial", .number n)]
  | cancelled n => [("states", .number n)]
  | processing item => [("item", .text item.describe)]
  | reconciled s old new moved =>
    [("state", .number s), ("old", .number old), ("new", .number new), ("moved", .number moved)]
  | progress p s c | fixpoint p s c =>
    [("processed", .number p), ("states", .number s), ("components", .number c)]
  | livenessFinished n => [("live", .number n)]
  | computed summary => [("summary", .text summary)]

end Event

/-- A line of the log. -/
inductive Note (S L : Type)
  | query (q : Query S L)
  | poll
  | event (e : Event)
  deriving DecidableEq, Repr

/-- The lines of a log, oldest first. -/
abbrev Log (S L : Type) : Type := Array (Note S L)

namespace Log

variable {S L : Type}

/-- What a log tells besides events: the queries and polls. -/
def interaction (log : Log S L) : List (Note S L) :=
  log.toList.filter fun
    | .event _ => false
    | _ => true

def polls (log : Log S L) : Nat :=
  log.toList.countP fun
    | .poll => true
    | _ => false

/-- The events that matter at a level. -/
def eventsAt (log : Log S L) (threshold : Level) : List Event :=
  log.toList.filterMap fun
    | .event e => if threshold.shows e.level then some e else none
    | _ => none

/-- To ask for more detail only adds events. -/
theorem eventsAt_sublist (log : Log S L) {l m : Level} (h : m.shows l = true) :
    (log.eventsAt l).Sublist (log.eventsAt m) := by
  unfold eventsAt
  induction log.toList with
  | nil => exact .slnil
  | cons n notes ih =>
    cases n with
    | event e =>
      by_cases hl : l.shows e.level = true
      · simp only [List.filterMap_cons, if_pos hl, if_pos (Level.shows_trans h hl)]
        exact ih.cons_cons e
      · by_cases hm : m.shows e.level = true
        · simp only [List.filterMap_cons, if_neg hl, if_pos hm]
          exact ih.cons e
        · simp only [List.filterMap_cons, if_neg hl, if_neg hm]
          exact ih
    | _ => exact ih

end Log

/-! ## Spans -/

/-- A part of a computation that the log marks off, after `info_span`. -/
structure Span where
  name : String
  level : Level := .info

/-- What someone reads who follows a log. -/
inductive Record
  | enter (span : String)
  | event (e : Event)
  | exit (span : String)
  deriving DecidableEq, Repr

/-- The events of a log in their span. It is marked off for those who are shown its level. -/
def Span.records {S L : Type} (s : Span) (log : Log S L) (threshold : Level) : List Record :=
  let events := (log.eventsAt threshold).map .event
  if threshold.shows s.level then .enter s.name :: events ++ [.exit s.name] else events

/-- To ask for more detail only adds records. -/
theorem Span.records_sublist {S L : Type} (s : Span) (log : Log S L) {l m : Level}
    (h : m.shows l = true) : (s.records log l).Sublist (s.records log m) := by
  have hevents := (log.eventsAt_sublist h).map Record.event
  unfold records
  by_cases hl : l.shows s.level = true
  · rw [if_pos hl, if_pos (Level.shows_trans h hl)]
    exact (hevents.append_right _).cons_cons _
  · rw [if_neg hl]
    split
    · exact (hevents.trans (List.sublist_append_left _ _)).cons _
    · exact hevents

end NestedWords

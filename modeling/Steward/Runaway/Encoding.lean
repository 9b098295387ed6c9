import Steward.Json.Shape
import Steward.Runaway.Limit
import Steward.Runaway.Record
import Steward.Runaway.Watch

/-!
This module contains the JSON forms of watches, records, limits and values. Moments and spans are
whole seconds with the nanoseconds after them, and no other member is allowed beside these two.
-/

namespace Steward

namespace Json

/--
Two numbers with the given names: the whole seconds, and the nanoseconds after them, which may be
a second or more.
-/
def seconds? (whole rest : String) (j : Json) : Option Span := do
  if let .obj ms := j then
    if ms.any fun m => m.1 != whole && m.1 != rest then none
  match ← j.fields? [whole, rest] with
  | [seconds, nanos] => Span.ofParts? (← seconds.need nat64?) (← nanos.need nat32?)
  | _ => none

end Json

namespace Span

def toJson (s : Span) : Json := .obj [("secs", .nat s.seconds), ("nanos", .nat s.subsecond)]

def ofJson? (j : Json) : Option Span := j.seconds? "secs" "nanos"

end Span

namespace Moment

def toJson (m : Moment) : Json := .obj [
  ("secs_since_epoch", .int m.seconds), ("nanos_since_epoch", .nat m.subsecond)]

def ofJson? (j : Json) : Option Moment := do
  let span ← j.seconds? "secs_since_epoch" "nanos_since_epoch"
  if Text.maxInt64 < span.seconds then none else return ⟨span.nanos⟩

end Moment

namespace Sql.Value

def toJson : Value → Json
  | null => .str "Null"
  | int n => .obj [("Int", .int n)]
  | uint n => .obj [("UInt", .nat n)]
  | text s => .obj [("Text", .str s)]
  | time m => .obj [("Timestamp", m.toJson)]

def ofJson? : Json → Option Value
  | .str "Null" => some null
  | .obj [("Null", .null)] => some null
  | .obj [("Int", j)] => j.int64?.map int
  | .obj [("UInt", j)] => j.nat64?.map uint
  | .obj [("Text", j)] => j.str?.map text
  | .obj [("Timestamp", j)] => (Moment.ofJson? j).map time
  | _ => none

end Sql.Value

namespace Runaway

/--
The name that a choice is written with.
-/
def nameOf {α : Type} [DecidableEq α] (names : List (String × α)) (a : α) : Json :=
  match names.find? fun p => p.2 == a with
  | some p => .str p.1
  | none => .null

namespace Action

def toJson (a : Action) : Json := nameOf names a

def ofJson? (j : Json) : Option Action := j.oneOf? names

end Action

namespace Target

def toJson (t : Target) : Json := nameOf names t

def ofJson? (j : Json) : Option Target := j.oneOf? names

end Target

namespace Detection

def toJson (d : Detection) : Json := nameOf names d

def ofJson? (j : Json) : Option Detection := j.oneOf? names

end Detection

namespace Watch

def toJson (w : Watch) : Json := .obj [
  ("id", .int w.id), ("resource_group_name", .str w.group), ("start_time", w.start.toJson),
  ("end_time", Json.ofOption Moment.toJson w.stop), ("watch", w.target.toJson),
  ("watch_text", .str w.text), ("source", .str w.source), ("action", w.action.toJson),
  ("switch_group_name", .str w.switchGroup), ("exceed_cause", .str w.cause)]

def ofJson? (j : Json) : Option Watch := do
  match ← j.fields? ["id", "resource_group_name", "start_time", "end_time", "watch",
      "watch_text", "source", "action", "switch_group_name", "exceed_cause"] with
  | [id, group, start, stop, target, text, source, action, switchGroup, cause] =>
    return {
      id := ← id.need Json.int64?
      group := ← group.need Json.str?
      start := ← start.need Moment.ofJson?
      stop := ← stop.optional Moment.ofJson?
      target := ← target.need Target.ofJson?
      text := ← text.need Json.str?
      source := ← source.need Json.str?
      action := ← action.need Action.ofJson?
      switchGroup := ← switchGroup.need Json.str?
      cause := ← cause.need Json.str? }
  | _ => none

end Watch

namespace Record

def toJson (r : Record) : Json := .obj [
  ("resource_group_name", .str r.group), ("start_time", r.start.toJson),
  ("match_type", r.detection.toJson), ("action", r.action.toJson),
  ("sample_text", .str r.sample), ("sql_digest", .str r.sqlDigest),
  ("plan_digest", .str r.planDigest), ("source", .str r.source),
  ("exceed_cause", .str r.cause), ("repeats", .nat r.repeats)]

def ofJson? (j : Json) : Option Record := do
  match ← j.fields? ["resource_group_name", "start_time", "match_type", "action",
      "sample_text", "sql_digest", "plan_digest", "source", "exceed_cause", "repeats"] with
  | [group, start, detection, action, sample, sqlDigest, planDigest, source, cause, repeats] =>
    return {
      group := ← group.need Json.str?
      start := ← start.need Moment.ofJson?
      detection := ← detection.need Detection.ofJson?
      action := ← action.need Action.ofJson?
      sample := ← sample.need Json.str?
      sqlDigest := ← sqlDigest.need Json.str?
      planDigest := ← planDigest.need Json.str?
      source := ← source.need Json.str?
      cause := ← cause.need Json.str?
      repeats := ← repeats.need Json.nat64? }
  | _ => none

end Record

namespace WatchSetting

def toJson (s : WatchSetting) : Json := .obj [
  ("watch_type", s.target.toJson), ("duration", s.duration.toJson)]

def ofJson? (j : Json) : Option WatchSetting := do
  match ← j.fields? ["watch_type", "duration"] with
  | [target, duration] => return ⟨← target.need Target.ofJson?, ← duration.need Span.ofJson?⟩
  | _ => none

end WatchSetting

namespace Limit

def toJson (l : Limit) : Json := .obj [
  ("exec_elapsed", Json.ofOption Span.toJson l.elapsed),
  ("processed_keys", Json.ofOption .nat l.keys),
  ("request_units", Json.ofOption .nat l.units), ("action", l.action.toJson),
  ("switch_group_name", .str l.switchGroup),
  ("watch", Json.ofOption WatchSetting.toJson l.watch)]

def ofJson? (j : Json) : Option Limit := do
  match ← j.fields? ["exec_elapsed", "processed_keys", "request_units", "action",
      "switch_group_name", "watch"] with
  | [elapsed, keys, units, action, switchGroup, watch] =>
    return {
      elapsed := ← elapsed.optional Span.ofJson?
      keys := ← keys.optional Json.nat64?
      units := ← units.optional Json.nat64?
      action := ← action.need Action.ofJson?
      switchGroup := ← switchGroup.need Json.str?
      watch := ← watch.optional WatchSetting.ofJson? }
  | _ => none

end Limit

end Runaway

end Steward

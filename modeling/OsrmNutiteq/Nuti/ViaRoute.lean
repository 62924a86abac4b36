import OsrmNutiteq.Nuti.Double

/-! # `NutiViaRoutePlugin::HandleRequest`

The request checks, the leg loop asking the `RouteFinder` for one route per further
coordinate, and the rendering loop building `path_description` and the instruction rows. The
`RouteFinder` and `coordinate_calculation::bearing` are not in the source and are parameters;
an unchecked `operator[]` read of `path_description` is a `getElem?`.
-/
namespace OsrmNutiteq.Nuti

/-- `COORDINATE_PRECISION`: coordinates are kept in millionths of a degree. -/
def coordinatePrecision : Double := 1000000

structure FixedPointCoordinate where
  lat : Int
  lon : Int
  deriving DecidableEq, Repr

/-- `Nuti::Routing::WGSPos`: `pos(0)` is the latitude, `pos(1)` the longitude. -/
structure WGSPos where
  lat : Double
  lon : Double
  deriving DecidableEq, Repr

namespace FixedPointCoordinate

/-- `WGSPos(c.lat / COORDINATE_PRECISION, c.lon / COORDINATE_PRECISION)` -/
def toWGSPos (c : FixedPointCoordinate) : WGSPos :=
  ⟨.ofInt c.lat / coordinatePrecision, .ofInt c.lon / coordinatePrecision⟩

/-- `FixedPointCoordinate(static_cast<int>(pos(0) * COORDINATE_PRECISION), ...)` -/
def ofWGSPos (p : WGSPos) : FixedPointCoordinate :=
  ⟨(p.lat * coordinatePrecision).castInt, (p.lon * coordinatePrecision).castInt⟩

set_option maxRecDepth 2000 in
example : ofWGSPos ⟨1.001, 0⟩ = ⟨1000999, 0⟩ := by decide

end FixedPointCoordinate

structure RoutingQuery where
  source : WGSPos
  target : WGSPos
  deriving DecidableEq, Repr

/-- The instruction types that `HandleRequest` tells apart; the others keep their code. -/
inductive InstructionType where
  | noTurn
  | stayOnRoundabout
  | reachedYourDestination
  | reachViaLocation
  | other (code : Nat)
  deriving DecidableEq, Repr

/-- `Nuti::Routing::RoutingInstruction`, with the getters `HandleRequest` calls. -/
structure RoutingInstruction where
  type : InstructionType
  address : String
  distance : Double
  time : Double
  geometryIndex : Nat
  deriving DecidableEq, Repr

inductive ResultStatus where
  | success | failed
  deriving DecidableEq, Repr

structure RoutingResult where
  status : ResultStatus
  instructions : List RoutingInstruction
  geometry : List WGSPos
  deriving DecidableEq, Repr

/-- A `SegmentInformation` of `path_description`: its location and its two bearings, in
tenths of a degree; the other fields are constants of the constructor call. -/
structure Segment where
  location : FixedPointCoordinate
  postTurnBearing : Int
  preTurnBearing : Int
  deriving DecidableEq, Repr

/-- One row of `json_route_instructions`: type, address, distance, point index, time and the
two bearing values; the distance text and the bearing names are functions of these. -/
structure InstructionRow where
  type : InstructionType
  address : String
  distance : Double
  pointIndex : Nat
  time : Double
  postTurnBearing : Double
  preTurnBearing : Double
  deriving DecidableEq, Repr

structure Rendered where
  pathDescription : List Segment
  rows : List InstructionRow
  deriving DecidableEq, Repr

/-- What `HandleRequest` answers: `Status::Error` with its status message, `Status::Ok` with
the rendered route, or an out-of-range read of `path_description`, which the code does not
check. -/
inductive Response where
  | error (statusMessage : String)
  | found (route : Rendered)
  | outOfRange
  deriving DecidableEq, Repr

section Request
variable (find : RoutingQuery → Except String RoutingResult)

/-- Whether `finder.find` returns, with a result that is not `FAILED`. -/
def routes (q : RoutingQuery) : Bool :=
  match find q with
  | .ok r => r.status != .failed
  | .error _ => false

/-- `k` passes of the leg loop, with `coordinates[0]` and `coordinates[1]` as `c0` and `c1`:
the queries issued, and the results or the error that ends the request. -/
def legLoop (c0 c1 : FixedPointCoordinate) :
    Nat → List RoutingQuery × Except String (List RoutingResult)
  | 0 => ([], .ok [])
  | k + 1 =>
    let query : RoutingQuery := ⟨c0.toWGSPos, c1.toWGSPos⟩
    match find query with
    | .error what => ([query], .error ("Routing failed, exception: " ++ what))
    | .ok result =>
      if result.status = .failed then ([query], .error "Routing failed")
      else
        let rest := legLoop c0 c1 k
        (query :: rest.1, rest.2.map (result :: ·))

end Request

section Rendering
variable (bearing : FixedPointCoordinate → FixedPointCoordinate → Int)

/-- The bearing loop over the indices `is`: entry `i` gets the bearings between entries
`i - 1` and `i`, where `bearing a b` is `static_cast<short>(bearing(a, b) * 10)`. -/
def bearingLoop : List Segment → List Nat → Option (List Segment)
  | pd, [] => some pd
  | pd, i :: is => do
    let first ← pd[i - 1]?
    let second ← pd[i]?
    bearingLoop (pd.set i { second with
      postTurnBearing := bearing first.location second.location,
      preTurnBearing := bearing second.location first.location }) is

/-- The row of `instr` in leg `legIndex` out of `legCount`, whose geometry starts at
`pathIndex`, with the distance and time accumulated since the last row. -/
def instructionRow (legCount legIndex pathIndex : Nat) (pd : List Segment)
    (distance time : Double) (instr : RoutingInstruction) : Option InstructionRow :=
  let type := if instr.type = .reachedYourDestination ∧ legIndex + 1 < legCount
    then .reachViaLocation else instr.type
  let pointIndex := pathIndex + instr.geometryIndex
  do
    let post ← pd[pointIndex]?
    let pre ← pd[pointIndex]?
    pure ⟨type, instr.address, distance, pointIndex, time, .ofInt post.postTurnBearing / 10.0,
      .ofInt pre.preTurnBearing / 10.0⟩

/-- The instruction loop, with the running `distance` and `time`; rows are appended to
`rows`. A `NO_TURN` or `STAY_ON_ROUNDABOUT` emits no row and keeps its distance and time
running. -/
def instructionLoop (legCount legIndex pathIndex : Nat) (pd : List Segment) :
    Double → Double → List RoutingInstruction → List InstructionRow →
      Option (List InstructionRow)
  | _, _, [], rows => some rows
  | distance, time, instr :: rest, rows =>
    let distance := distance + instr.distance
    let time := time + instr.time
    if instr.type = .noTurn ∨ instr.type = .stayOnRoundabout then
      instructionLoop legCount legIndex pathIndex pd distance time rest rows
    else do
      let row ← instructionRow legCount legIndex pathIndex pd distance time instr
      instructionLoop legCount legIndex pathIndex pd 0 0 rest (rows ++ [row])

def segmentOf (pos : WGSPos) : Segment := ⟨FixedPointCoordinate.ofWGSPos pos, 0, 0⟩

/-- One pass of the rendering loop, for leg `i` out of `legCount`. -/
def renderLeg (legCount i : Nat) (acc : Rendered) (result : RoutingResult) : Option Rendered :=
  if result.instructions = [] then some acc
  else
    let pathIndex := acc.pathDescription.length
    let pd := acc.pathDescription ++ result.geometry.map segmentOf
    do
      let pd ← bearingLoop bearing pd (List.range' (max 1 pathIndex) (pd.length - max 1 pathIndex))
      let rows ← instructionLoop legCount i pathIndex pd 0 0 result.instructions acc.rows
      pure ⟨pd, rows⟩

def renderLegs (legCount : Nat) : Nat → List RoutingResult → Rendered → Option Rendered
  | _, [], acc => some acc
  | i, r :: rs, acc => do
    let acc ← renderLeg bearing legCount i acc r
    renderLegs legCount (i + 1) rs acc

end Rendering

def handleRequest (find : RoutingQuery → Except String RoutingResult)
    (bearing : FixedPointCoordinate → FixedPointCoordinate → Int) (maxLocationsViaroute : Int)
    (coordinates : List FixedPointCoordinate) : List RoutingQuery × Response :=
  if 0 < maxLocationsViaroute ∧ maxLocationsViaroute < coordinates.length then
    ([], .error ("Number of entries " ++ toString coordinates.length ++
      " is higher than current maximum (" ++ toString maxLocationsViaroute ++ ")"))
  else
    match coordinates with
    | c0 :: c1 :: _ =>
      let legs := legLoop find c0 c1 (coordinates.length - 1)
      (legs.1, match legs.2 with
        | .error msg => .error msg
        | .ok results =>
          match renderLegs bearing results.length 0 results ⟨[], []⟩ with
          | some route => .found route
          | none => .outOfRange)
    | _ => ([], .error "Invalid coordinates")

/-! ## The queries of the leg loop -/

section Legs
variable (find : RoutingQuery → Except String RoutingResult) (c0 c1 : FixedPointCoordinate)

theorem legLoop_of_routes (h : routes find ⟨c0.toWGSPos, c1.toWGSPos⟩ = true) (k : Nat) :
    (legLoop find c0 c1 k).1 = List.replicate k ⟨c0.toWGSPos, c1.toWGSPos⟩ ∧
      ∃ results : List RoutingResult, (legLoop find c0 c1 k).2 = .ok results ∧
        results.length = k := by
  induction k with
  | zero => exact ⟨rfl, [], rfl, rfl⟩
  | succ k ih =>
    obtain ⟨hq, results, hr, hl⟩ := ih
    unfold routes at h
    split at h
    next r hfind =>
      have hs : r.status ≠ .failed := by simpa using h
      simp only [legLoop, hfind, if_neg hs, hq, hr]
      exact ⟨rfl, r :: results, rfl, by simp [hl]⟩
    next => cases h

theorem legLoop_of_fails (h : routes find ⟨c0.toWGSPos, c1.toWGSPos⟩ = false) (k : Nat) :
    (legLoop find c0 c1 (k + 1)).1 = [⟨c0.toWGSPos, c1.toWGSPos⟩] ∧
      ((legLoop find c0 c1 (k + 1)).2 = .error "Routing failed" ∨
        ∃ what, (legLoop find c0 c1 (k + 1)).2 = .error ("Routing failed, exception: " ++ what)) := by
  unfold routes at h
  split at h
  next r hfind =>
    have hs : r.status = .failed := by simpa using h
    simp [legLoop, hfind, hs]
  next what hfind => simp [legLoop, hfind]

theorem legLoop_succ_queries_ne_nil (k : Nat) : (legLoop find c0 c1 (k + 1)).1 ≠ [] := by
  simp only [legLoop]
  split
  · simp
  · split <;> simp

theorem legLoop_results {k : Nat} {results : List RoutingResult}
    (h : (legLoop find c0 c1 k).2 = .ok results) :
    ∀ r ∈ results, find ⟨c0.toWGSPos, c1.toWGSPos⟩ = .ok r := by
  induction k generalizing results with
  | zero =>
    cases h
    simp
  | succ k ih =>
    simp only [legLoop] at h
    split at h
    · cases h
    · next result hfind =>
      split at h
      · cases h
      · cases hrest : (legLoop find c0 c1 k).2 with
        | error e => simp [hrest, Except.map] at h
        | ok rs =>
          simp only [hrest, Except.map, Except.ok.injEq] at h
          subst h
          rintro r (_ | ⟨_, hr⟩)
          · exact hfind
          · exact ih hrest r hr

end Legs

/-- `HandleRequest` queries the `RouteFinder` exactly when the request passes its two checks,
and a request it rejects gets the message of the check that failed. -/
theorem handleRequest_rejects (find : RoutingQuery → Except String RoutingResult)
    (bearing : FixedPointCoordinate → FixedPointCoordinate → Int) (maxLocationsViaroute : Int)
    (coordinates : List FixedPointCoordinate) :
    ((handleRequest find bearing maxLocationsViaroute coordinates).1 = [] ↔
      (0 < maxLocationsViaroute ∧ maxLocationsViaroute < coordinates.length) ∨
        coordinates.length < 2) ∧
    (0 < maxLocationsViaroute ∧ maxLocationsViaroute < coordinates.length →
      (handleRequest find bearing maxLocationsViaroute coordinates).2 =
        .error ("Number of entries " ++ toString coordinates.length ++
          " is higher than current maximum (" ++ toString maxLocationsViaroute ++ ")")) ∧
    (¬(0 < maxLocationsViaroute ∧ maxLocationsViaroute < coordinates.length) →
      coordinates.length < 2 →
      (handleRequest find bearing maxLocationsViaroute coordinates).2 = .error "Invalid coordinates") := by
  by_cases hlim : 0 < maxLocationsViaroute ∧ maxLocationsViaroute < coordinates.length
  · unfold handleRequest; rw [if_pos hlim]
    exact ⟨iff_of_true rfl (.inl hlim), fun _ => rfl, fun h => absurd hlim h⟩
  unfold handleRequest; rw [if_neg hlim]
  rcases coordinates with _ | ⟨c, _ | ⟨c1, rest⟩⟩
  · exact ⟨iff_of_true rfl (.inr (by decide)), fun h => absurd h hlim, fun _ _ => rfl⟩
  · exact ⟨iff_of_true rfl (.inr (by simp)), fun h => absurd h hlim, fun _ _ => rfl⟩
  · have hlen : ¬((c :: c1 :: rest).length < 2) := by simp
    exact ⟨iff_of_false (legLoop_succ_queries_ne_nil find c c1 rest.length)
      (not_or.mpr ⟨hlim, hlen⟩), fun h => absurd h hlim, fun _ hn => absurd hn hlen⟩

/-- For a request of `n ≥ 2` coordinates within the limit, every query `HandleRequest` makes
is the one from `coordinates[0]` to `coordinates[1]`: `n - 1` of them when it routes, and one,
ending the request with a "Routing failed" error, when it does not. -/
theorem handleRequest_queries_first_leg (find : RoutingQuery → Except String RoutingResult)
    (bearing : FixedPointCoordinate → FixedPointCoordinate → Int) (maxLocationsViaroute : Int)
    (c0 c1 : FixedPointCoordinate) (rest : List FixedPointCoordinate)
    (hmax : 0 < maxLocationsViaroute → rest.length + 2 ≤ maxLocationsViaroute) :
    (handleRequest find bearing maxLocationsViaroute (c0 :: c1 :: rest)).1 =
      if routes find ⟨c0.toWGSPos, c1.toWGSPos⟩ then
        List.replicate (rest.length + 1) ⟨c0.toWGSPos, c1.toWGSPos⟩
      else [⟨c0.toWGSPos, c1.toWGSPos⟩] := by
  have hlim : ¬(0 < maxLocationsViaroute ∧ maxLocationsViaroute < (c0 :: c1 :: rest).length) :=
    fun ⟨h0, hlt⟩ => absurd (hmax h0) (by simp only [List.length_cons] at hlt; omega)
  rw [handleRequest, if_neg hlim]
  simp only [List.length_cons, Nat.add_sub_cancel]
  cases hq : routes find ⟨c0.toWGSPos, c1.toWGSPos⟩
  · exact (legLoop_of_fails find c0 c1 hq rest.length).1
  · exact (legLoop_of_routes find c0 c1 hq (rest.length + 1)).1

def threeWaypoints : List FixedPointCoordinate :=
  [⟨0, 0⟩, ⟨1000000, 1000000⟩, ⟨2000000, 2000000⟩]

/-- On three waypoints and a finder that routes every query, both queries go from the first
waypoint to the second; the leg from the second waypoint to the third is never asked for. -/
theorem leg_queries_repeat_first_leg :
    (handleRequest (fun _ => .ok ⟨.success, [], []⟩) (fun _ _ => 0) 0 threeWaypoints).1 =
        [⟨(⟨0, 0⟩ : FixedPointCoordinate).toWGSPos, (⟨1000000, 1000000⟩ : FixedPointCoordinate).toWGSPos⟩,
          ⟨(⟨0, 0⟩ : FixedPointCoordinate).toWGSPos, (⟨1000000, 1000000⟩ : FixedPointCoordinate).toWGSPos⟩] ∧
      ⟨(⟨1000000, 1000000⟩ : FixedPointCoordinate).toWGSPos,
          (⟨2000000, 2000000⟩ : FixedPointCoordinate).toWGSPos⟩ ∉
        (handleRequest (fun _ => .ok ⟨.success, [], []⟩) (fun _ _ => 0) 0 threeWaypoints).1 := by
  decide

end OsrmNutiteq.Nuti

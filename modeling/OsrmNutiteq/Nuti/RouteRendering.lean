import OsrmNutiteq.Nuti.ViaRoute

/-! # The rendering loop

Each leg with instructions reads `path_index` off `path_description.size()` before appending
its geometry, and the bearing loop writes only entries of the current leg. So the `k`-th row
reads, in range, the entry built from its own instruction's geometry point
(`rendering_reads_in_range`), and carries the distance and time run up since the row before.
-/
namespace OsrmNutiteq.Nuti
open FixedPointCoordinate (ofWGSPos)

/-- The total geometry length of the legs that have instructions. -/
def pathOffset : List RoutingResult → Nat
  | [] => 0
  | r :: rs => (if r.instructions = [] then 0 else r.geometry.length) + pathOffset rs

def pathLocations (legs : List RoutingResult) : List FixedPointCoordinate :=
  (legs.filter (·.instructions ≠ [])).flatMap (·.geometry.map ofWGSPos)

theorem length_pathLocations (legs : List RoutingResult) :
    (pathLocations legs).length = pathOffset legs := by
  induction legs with
  | nil => rfl
  | cons r rs ih =>
    rw [pathOffset, ← ih]
    by_cases h : r.instructions = [] <;> simp [pathLocations, h]

def rowInstructions (instrs : List RoutingInstruction) : List RoutingInstruction :=
  instrs.filter fun ins => !(ins.type = .noTurn ∨ ins.type = .stayOnRoundabout)

@[simp] theorem rowInstructions_nil : rowInstructions [] = [] := rfl

theorem rowInstructions_cons (ins : RoutingInstruction) (rest : List RoutingInstruction) :
    rowInstructions (ins :: rest) =
      if ins.type = .noTurn ∨ ins.type = .stayOnRoundabout then rowInstructions rest
      else ins :: rowInstructions rest := by
  simp only [rowInstructions, List.filter_cons]
  split_ifs <;> simp_all

/-- The instructions that get rows, each with the index of its leg, leg after leg from leg
`j` on. -/
def rowSources : Nat → List RoutingResult → List (Nat × RoutingInstruction)
  | _, [] => []
  | j, r :: rs => (rowInstructions r.instructions).map (j, ·) ++ rowSources (j + 1) rs

theorem rowSources_concat (j : Nat) (rs : List RoutingResult) (r : RoutingResult) :
    rowSources j (rs ++ [r]) =
      rowSources j rs ++ (rowInstructions r.instructions).map (j + rs.length, ·) := by
  induction rs generalizing j with
  | nil => simp [rowSources]
  | cons r' rs ih => simp [rowSources, ih, Nat.add_assoc, Nat.add_comm 1]

/-- `row` is the row of instruction `ins` of a leg whose geometry `geo` starts at entry
`offset` of `pd`: its point index is `offset` plus the geometry index, and the entry there
is built from the instruction's geometry point and gives the row its bearings. -/
def RowOf (pd : List Segment) (offset : Nat) (geo : List WGSPos) (ins : RoutingInstruction)
    (row : InstructionRow) : Prop :=
  row.pointIndex = offset + ins.geometryIndex ∧
  ∃ seg pos, pd[row.pointIndex]? = some seg ∧ geo[ins.geometryIndex]? = some pos ∧
    seg.location = ofWGSPos pos ∧
    row.postTurnBearing = .ofInt seg.postTurnBearing / 10.0 ∧
    row.preTurnBearing = .ofInt seg.preTurnBearing / 10.0

theorem RowOf.lt_length {pd : List Segment} {offset : Nat} {geo : List WGSPos}
    {ins : RoutingInstruction} {row : InstructionRow} (h : RowOf pd offset geo ins row) :
    row.pointIndex < pd.length :=
  let ⟨_, _, _, hseg, _⟩ := h
  (List.getElem?_eq_some_iff.mp hseg).1

theorem RowOf.of_prefix {pd pd' : List Segment} {offset : Nat} {geo : List WGSPos}
    {ins : RoutingInstruction} {row : InstructionRow} (h : RowOf pd offset geo ins row)
    (hpre : pd <+: pd') : RowOf pd' offset geo ins row := by
  obtain ⟨hidx, seg, pos, hseg, rest⟩ := h
  obtain ⟨hlt, rfl⟩ := List.getElem?_eq_some_iff.mp hseg
  exact ⟨hidx, _, pos, List.isPrefix_iff.mp hpre _ hlt, rest⟩

def RowFrom (pd : List Segment) (done : List RoutingResult) (src : Nat × RoutingInstruction)
    (row : InstructionRow) : Prop :=
  ∃ leg, done[src.1]? = some leg ∧ RowOf pd (pathOffset (done.take src.1)) leg.geometry src.2 row

theorem RowFrom.append {pd pd' : List Segment} {done : List RoutingResult}
    {src : Nat × RoutingInstruction} {row : InstructionRow} (h : RowFrom pd done src row)
    (hpre : pd <+: pd') (r : RoutingResult) : RowFrom pd' (done ++ [r]) src row := by
  obtain ⟨leg, hj, hrow⟩ := h
  have hlt := (List.getElem?_eq_some_iff.mp hj).1
  refine ⟨leg, by rw [List.getElem?_append_left hlt, hj], ?_⟩
  rw [List.take_append_of_le_length hlt.le]
  exact hrow.of_prefix hpre

/-- What the rendering loop has built after the legs `done`: the locations of
`path_description`, and the `k`-th row comes from the `k`-th instruction that gets one. -/
def Rendered.Valid (acc : Rendered) (done : List RoutingResult) : Prop :=
  acc.pathDescription.map (·.location) = pathLocations done ∧
  List.Forall₂ (RowFrom acc.pathDescription done) (rowSources 0 done) acc.rows

theorem Rendered.Valid.exists_rowOf {acc : Rendered} {done : List RoutingResult}
    (hv : acc.Valid done) {row : InstructionRow} (hrow : row ∈ acc.rows) :
    ∃ j leg ins, done[j]? = some leg ∧
      RowOf acc.pathDescription (pathOffset (done.take j)) leg.geometry ins row := by
  have h2 := hv.2
  generalize rowSources 0 done = srcs at h2
  generalize acc.rows = rows at h2 hrow
  induction h2 with
  | nil => cases hrow
  | cons h _ ih =>
    rcases List.mem_cons.mp hrow with rfl | hrow
    · obtain ⟨leg, hj, hr⟩ := h
      exact ⟨_, leg, _, hj, hr⟩
    · exact ih hrow

section Loops
variable (bearing : FixedPointCoordinate → FixedPointCoordinate → Int)

theorem bearingLoop_spec (is : List Nat) (pd : List Segment)
    (hrange : ∀ i ∈ is, 1 ≤ i ∧ i < pd.length) :
    ∃ pd', bearingLoop bearing pd is = some pd' ∧ pd'.map (·.location) = pd.map (·.location) ∧
      ∀ k ∉ is, pd'[k]? = pd[k]? := by
  induction is generalizing pd with
  | nil => exact ⟨pd, rfl, rfl, fun _ _ => rfl⟩
  | cons i is ih =>
    obtain ⟨h1, hlt⟩ := hrange i (List.mem_cons_self _ _)
    have hlt' : i - 1 < pd.length := by omega
    set pd1 := pd.set i { pd[i] with
      postTurnBearing := bearing pd[i - 1].location pd[i].location,
      preTurnBearing := bearing pd[i].location pd[i - 1].location } with hpd1
    have hloc : pd1.map (·.location) = pd.map (·.location) := by
      refine List.ext_getElem? fun k => ?_
      simp only [hpd1, List.getElem?_map, List.getElem?_set]
      split <;> simp_all [List.getElem?_eq_getElem]
    obtain ⟨pd', hrun, hloc', hkeep⟩ := ih pd1 fun j hj => by
      simpa [pd1] using hrange j (List.mem_cons_of_mem _ hj)
    refine ⟨pd', ?_, hloc'.trans hloc, fun k hk => ?_⟩
    · simp only [bearingLoop, List.getElem?_eq_getElem hlt', List.getElem?_eq_getElem hlt,
        Option.bind_eq_bind, Option.some_bind]
      exact hrun
    · have hik : i ≠ k := by
        rintro rfl
        exact hk (List.mem_cons_self _ _)
      rw [hkeep k fun h => hk (List.mem_cons_of_mem _ h), hpd1, List.getElem?_set_ne hik]

theorem instructionRow_spec (legCount legIndex pathIndex : Nat) (pd : List Segment)
    (distance time : Double) (instr : RoutingInstruction)
    (hp : pathIndex + instr.geometryIndex < pd.length) :
    ∃ row, instructionRow legCount legIndex pathIndex pd distance time instr = some row ∧
      row.pointIndex = pathIndex + instr.geometryIndex ∧
      row.postTurnBearing = .ofInt pd[pathIndex + instr.geometryIndex].postTurnBearing / 10.0 ∧
      row.preTurnBearing = .ofInt pd[pathIndex + instr.geometryIndex].preTurnBearing / 10.0 := by
  simp [instructionRow, List.getElem?_eq_getElem hp]

theorem instructionLoop_spec (legCount legIndex pathIndex : Nat) (pd : List Segment)
    (instrs : List RoutingInstruction)
    (hin : ∀ ins ∈ instrs, pathIndex + ins.geometryIndex < pd.length)
    (distance time : Double) (rows : List InstructionRow) :
    ∃ new, instructionLoop legCount legIndex pathIndex pd distance time instrs rows =
        some (rows ++ new) ∧
      List.Forall₂ (fun ins row => row.pointIndex = pathIndex + ins.geometryIndex ∧
        ∃ seg, pd[row.pointIndex]? = some seg ∧
          row.postTurnBearing = .ofInt seg.postTurnBearing / 10.0 ∧
          row.preTurnBearing = .ofInt seg.preTurnBearing / 10.0) (rowInstructions instrs) new := by
  induction instrs generalizing distance time rows with
  | nil => exact ⟨[], by simp [instructionLoop]⟩
  | cons ins rest ih =>
    have hrest : ∀ i ∈ rest, pathIndex + i.geometryIndex < pd.length :=
      fun i hi => hin i (List.mem_cons_of_mem _ hi)
    rw [rowInstructions_cons]
    by_cases hskip : ins.type = .noTurn ∨ ins.type = .stayOnRoundabout
    · obtain ⟨new, hrun, hnew⟩ := ih hrest (distance + ins.distance) (time + ins.time) rows
      rw [if_pos hskip]
      exact ⟨new, by simp only [instructionLoop, if_pos hskip]; exact hrun, hnew⟩
    · have hp := hin ins (List.mem_cons_self _ _)
      obtain ⟨row, hrow, hidx, hpost, hpre⟩ := instructionRow_spec legCount legIndex pathIndex pd
        (distance + ins.distance) (time + ins.time) ins hp
      obtain ⟨new, hrun, hnew⟩ := ih hrest 0 0 (rows ++ [row])
      rw [if_neg hskip]
      refine ⟨row :: new, ?_, .cons ⟨hidx, _, by rw [hidx]; exact List.getElem?_eq_getElem hp,
        hpost, hpre⟩ hnew⟩
      simp only [instructionLoop, if_neg hskip, hrow, Option.bind_eq_bind, Option.some_bind, hrun]
      simp

theorem renderLeg_valid (legCount i : Nat) {acc : Rendered} {done : List RoutingResult}
    (r : RoutingResult) (hv : acc.Valid done)
    (hgeo : ∀ ins ∈ r.instructions, ins.geometryIndex < r.geometry.length) :
    ∃ acc', renderLeg bearing legCount i acc r = some acc' ∧ acc'.Valid (done ++ [r]) ∧
      acc.pathDescription <+: acc'.pathDescription := by
  have hL : acc.pathDescription.length = pathOffset done := by
    rw [← length_pathLocations, ← hv.1, List.length_map]
  by_cases hnil : r.instructions = []
  · refine ⟨acc, by simp [renderLeg, hnil], ⟨by simp [hv.1, pathLocations, hnil], ?_⟩,
      List.prefix_refl _⟩
    rw [rowSources_concat, hnil, rowInstructions_nil, List.map_nil, List.append_nil]
    exact hv.2.imp fun _ _ h => h.append (List.prefix_refl _) r
  simp only [renderLeg, if_neg hnil]
  set L := acc.pathDescription.length
  set pd0 := acc.pathDescription ++ r.geometry.map segmentOf with hpd0
  have hlen0 : pd0.length = L + r.geometry.length := by simp [pd0, L]
  obtain ⟨pd1, hb, hloc, hkeep⟩ := bearingLoop_spec bearing
    (List.range' (max 1 L) (pd0.length - max 1 L)) pd0 fun i hi => by
      rw [List.mem_range'_1] at hi
      omega
  obtain ⟨new, hi, hnew⟩ := instructionLoop_spec legCount i L pd1 r.instructions
    (fun ins h => by have := hgeo ins h; have := congrArg List.length hloc; simp at this; omega)
    0 0 acc.rows
  have hpre : acc.pathDescription <+: pd1 := List.isPrefix_iff.mpr fun k hk => by
    rw [hkeep k (by rw [List.mem_range'_1]; omega), hpd0, List.getElem?_append_left hk,
      List.getElem?_eq_getElem hk]
  refine ⟨⟨pd1, acc.rows ++ new⟩, by simp [hb, hi], ⟨?_, ?_⟩, hpre⟩
  · rw [hloc, hpd0]
    simp [hv.1, pathLocations, hnil, segmentOf, Function.comp_def]
  rw [rowSources_concat, Nat.zero_add]
  refine List.rel_append (hv.2.imp fun _ _ h => h.append hpre r) (List.forall₂_map_left_iff.mpr ?_)
  have hin : ∀ ins ∈ rowInstructions r.instructions, ins.geometryIndex < r.geometry.length :=
    fun ins h => hgeo ins (List.mem_filter.mp h).1
  refine ((List.forall₂_and_left _ _).mpr ⟨hin, hnew⟩).imp
    fun ins row ⟨hg, hidx, seg, hseg, hpost, hpre'⟩ => ?_
  -- the new row reads the entry built from its instruction's own geometry point
  refine ⟨r, List.getElem?_concat_length _ _, ?_⟩
  rw [List.take_left, ← hL]
  refine ⟨hidx, seg, r.geometry[ins.geometryIndex], hseg, List.getElem?_eq_getElem hg, ?_,
    hpost, hpre'⟩
  have hat := congrArg (·[L + ins.geometryIndex]?) hloc
  rw [hidx] at hseg
  simp only [List.getElem?_map, hseg, hpd0, List.getElem?_append_right (Nat.le_add_right L _),
    Nat.add_sub_cancel_left, List.getElem?_eq_getElem hg, Option.map_some'] at hat
  simpa [segmentOf] using hat

/-- The rendering loop from any point on, over legs whose instructions' geometry indices lie
within their geometry. -/
theorem renderLegs_valid (legCount : Nat) (rs done : List RoutingResult) (acc : Rendered)
    (hv : acc.Valid done)
    (hgeo : ∀ r ∈ rs, ∀ ins ∈ r.instructions, ins.geometryIndex < r.geometry.length) :
    ∃ route, renderLegs bearing legCount done.length rs acc = some route ∧
      route.Valid (done ++ rs) := by
  induction rs generalizing done acc with
  | nil => exact ⟨acc, rfl, by simpa using hv⟩
  | cons r rs ih =>
    obtain ⟨acc', hleg, hv', -⟩ :=
      renderLeg_valid bearing legCount done.length r hv (hgeo r (List.mem_cons_self _ _))
    obtain ⟨route, hrun, hvr⟩ :=
      ih (done ++ [r]) acc' hv' fun r' h => hgeo r' (List.mem_cons_of_mem _ h)
    refine ⟨route, ?_, by simpa using hvr⟩
    simp only [renderLegs, hleg, Option.bind_eq_bind, Option.some_bind]
    simpa using hrun

theorem render_valid (results : List RoutingResult)
    (hgeo : ∀ r ∈ results, ∀ ins ∈ r.instructions, ins.geometryIndex < r.geometry.length) :
    ∃ route, renderLegs bearing results.length 0 results ⟨[], []⟩ = some route ∧
      route.Valid results := by
  simpa using renderLegs_valid bearing results.length results [] ⟨[], []⟩ ⟨rfl, .nil⟩ hgeo

end Loops

/-- When every instruction's geometry index is within its own leg's geometry, the rendering
loop reads only in range; `path_description` is the geometries of the legs with instructions,
in leg order; and the `k`-th row comes from the `k`-th instruction that gets one, of leg `j`:
its point index `p` is the total geometry length of the legs before `j` with instructions
plus the instruction's geometry index, `p < path_description.size()`, and entry `p` was built
from the instruction's own geometry point. -/
theorem rendering_reads_in_range (bearing : FixedPointCoordinate → FixedPointCoordinate → Int)
    (results : List RoutingResult)
    (hgeo : ∀ r ∈ results, ∀ ins ∈ r.instructions, ins.geometryIndex < r.geometry.length) :
    ∃ route, renderLegs bearing results.length 0 results ⟨[], []⟩ = some route ∧
      route.pathDescription.map (·.location) = pathLocations results ∧
      List.Forall₂ (fun (src : Nat × RoutingInstruction) row =>
          row.pointIndex < route.pathDescription.length ∧ ∃ leg, results[src.1]? = some leg ∧
            RowOf route.pathDescription (pathOffset (results.take src.1)) leg.geometry src.2 row)
        (rowSources 0 results) route.rows := by
  obtain ⟨route, hrun, hv⟩ := render_valid bearing results hgeo
  exact ⟨route, hrun, hv.1, hv.2.imp fun _ _ ⟨leg, hj, h⟩ => ⟨h.lt_length, leg, hj, h⟩⟩

def sampleLegs : List RoutingResult :=
  [⟨.success, [⟨.other 2, "A", 10, 1, 1⟩], [⟨0, 0⟩, ⟨1, 1⟩]⟩,
   ⟨.success, [], [⟨1, 1⟩]⟩,
   ⟨.success, [⟨.noTurn, "B", 5, 1, 0⟩, ⟨.reachedYourDestination, "C", 5, 1, 1⟩],
     [⟨1, 1⟩, ⟨2, 2⟩]⟩]

/-- On `sampleLegs` the rendering reads in range, the turn of leg 0 and the arrival of leg 2
getting the two rows. -/
theorem rendering_reads_in_range_sample :
    (∀ r ∈ sampleLegs, ∀ ins ∈ r.instructions, ins.geometryIndex < r.geometry.length) ∧
      ∃ route, renderLegs (fun _ _ => 0) sampleLegs.length 0 sampleLegs ⟨[], []⟩ = some route ∧
        route.pathDescription.map (·.location) = pathLocations sampleLegs ∧
        route.rows.length = 2 :=
  have h : ∀ r ∈ sampleLegs, ∀ ins ∈ r.instructions, ins.geometryIndex < r.geometry.length := by
    decide
  let ⟨route, hrun, hloc, hrows⟩ := rendering_reads_in_range (fun _ _ => 0) sampleLegs h
  ⟨h, route, hrun, hloc, hrows.length_eq.symm.trans (by decide)⟩

/-! ## Which instructions get rows -/

/-- The type and address the row of `ins` shows, on leg `legIndex` out of `legCount`. -/
def rowLabel (legCount legIndex : Nat) (ins : RoutingInstruction) : InstructionType × String :=
  (if ins.type = .reachedYourDestination ∧ legIndex + 1 < legCount then .reachViaLocation
    else ins.type, ins.address)

def rowLabels (legCount : Nat) : Nat → List RoutingResult → List (InstructionType × String)
  | _, [] => []
  | i, r :: rs => (rowInstructions r.instructions).map (rowLabel legCount i) ++
      rowLabels legCount (i + 1) rs

def InstructionRow.label (row : InstructionRow) : InstructionType × String := (row.type, row.address)

theorem instructionRow_fields {legCount legIndex pathIndex : Nat} {pd : List Segment}
    {distance time : Double} {instr : RoutingInstruction} {row : InstructionRow}
    (h : instructionRow legCount legIndex pathIndex pd distance time instr = some row) :
    row.distance = distance ∧ row.time = time ∧ row.label = rowLabel legCount legIndex instr ∧
      row.pointIndex = pathIndex + instr.geometryIndex := by
  simp only [instructionRow, Option.bind_eq_bind, Option.bind_eq_some, Option.pure_def,
    Option.some.injEq] at h
  obtain ⟨_, _, _, _, rfl⟩ := h
  exact ⟨rfl, rfl, rfl, rfl⟩

theorem instructionLoop_map {β : Type} (f : InstructionRow → β) (g : RoutingInstruction → β)
    {legCount legIndex pathIndex : Nat} {pd : List Segment}
    (hf : ∀ d t ins row, instructionRow legCount legIndex pathIndex pd d t ins = some row →
      f row = g ins)
    {instrs : List RoutingInstruction} {distance time : Double} {rows out : List InstructionRow}
    (h : instructionLoop legCount legIndex pathIndex pd distance time instrs rows = some out) :
    out.map f = rows.map f ++ (rowInstructions instrs).map g := by
  induction instrs generalizing distance time rows with
  | nil =>
    cases h
    simp
  | cons ins rest ih =>
    by_cases hskip : ins.type = .noTurn ∨ ins.type = .stayOnRoundabout
    · simp only [instructionLoop, if_pos hskip] at h
      rw [ih h, rowInstructions_cons, if_pos hskip]
    · simp only [instructionLoop, if_neg hskip, Option.bind_eq_bind, Option.bind_eq_some] at h
      obtain ⟨row, hrow, h⟩ := h
      rw [ih h, rowInstructions_cons, if_neg hskip]
      simp [hf _ _ _ _ hrow]

section Labels
variable (bearing : FixedPointCoordinate → FixedPointCoordinate → Int)

theorem renderLeg_map {β : Type} (f : InstructionRow → β) (g : Nat → RoutingInstruction → β)
    {legCount i : Nat}
    (hf : ∀ pathIndex pd d t ins row, instructionRow legCount i pathIndex pd d t ins = some row →
      f row = g pathIndex ins)
    {acc acc' : Rendered} {r : RoutingResult} (h : renderLeg bearing legCount i acc r = some acc') :
    acc'.rows.map f =
      acc.rows.map f ++ (rowInstructions r.instructions).map (g acc.pathDescription.length) := by
  unfold renderLeg at h
  split at h
  next hnil =>
    cases h
    simp [hnil]
  next =>
    simp only [Option.bind_eq_bind, Option.bind_eq_some, Option.pure_def, Option.some.injEq] at h
    obtain ⟨_, -, rows, hrows, rfl⟩ := h
    exact instructionLoop_map f _ (hf _ _) hrows

theorem renderLegs_labels {legCount i : Nat} {rs : List RoutingResult} {acc route : Rendered}
    (h : renderLegs bearing legCount i rs acc = some route) :
    route.rows.map (·.label) = acc.rows.map (·.label) ++ rowLabels legCount i rs := by
  induction rs generalizing i acc with
  | nil =>
    cases h
    simp [rowLabels]
  | cons r rs ih =>
    simp only [renderLegs, Option.bind_eq_bind, Option.bind_eq_some] at h
    obtain ⟨acc', hleg, hrest⟩ := h
    rw [ih hrest, renderLeg_map bearing _ (fun _ => rowLabel legCount i)
      (fun _ _ _ _ _ _ h => (instructionRow_fields h).2.2.1) hleg, rowLabels, List.append_assoc]

end Labels

/-- When every instruction's geometry index is within its own leg's geometry, the rendering
loop gives one row to each instruction other than `NO_TURN` and `STAY_ON_ROUNDABOUT`, leg
after leg and in instruction order, with the instruction's type and address, except that an
arrival on a leg other than the last of the results shows as `REACH_VIA_LOCATION`. -/
theorem rendering_rows_follow_instructions
    (bearing : FixedPointCoordinate → FixedPointCoordinate → Int) (results : List RoutingResult)
    (hgeo : ∀ r ∈ results, ∀ ins ∈ r.instructions, ins.geometryIndex < r.geometry.length) :
    ∃ route, renderLegs bearing results.length 0 results ⟨[], []⟩ = some route ∧
      route.rows.map (·.label) = rowLabels results.length 0 results := by
  obtain ⟨route, hrun, -⟩ := render_valid bearing results hgeo
  exact ⟨route, hrun, by simpa using renderLegs_labels bearing hrun⟩

/-- On `sampleLegs` the rows are a turn at "A" and the arrival at "C"; the `NO_TURN` at "B"
gets none. -/
theorem rendering_rows_follow_instructions_sample :
    (∀ r ∈ sampleLegs, ∀ ins ∈ r.instructions, ins.geometryIndex < r.geometry.length) ∧
      ∃ route, renderLegs (fun _ _ => 0) sampleLegs.length 0 sampleLegs ⟨[], []⟩ = some route ∧
        route.rows.map (·.label) = [(.other 2, "A"), (.reachedYourDestination, "C")] :=
  have h : ∀ r ∈ sampleLegs, ∀ ins ∈ r.instructions, ins.geometryIndex < r.geometry.length := by
    decide
  let ⟨route, hrun, hl⟩ := rendering_rows_follow_instructions (fun _ _ => 0) sampleLegs h
  ⟨h, route, hrun, hl.trans (by decide)⟩

/-! ## When the rendering reads out of range

A row reads `path_description[point_index]` after its leg's geometry has been appended and
before the next leg's; the bearing loop always reads in range.
-/

theorem instructionRow_eq_none {legCount legIndex pathIndex : Nat} {pd : List Segment}
    {distance time : Double} {instr : RoutingInstruction} :
    instructionRow legCount legIndex pathIndex pd distance time instr = none ↔
      pd.length ≤ pathIndex + instr.geometryIndex := by
  rw [← List.getElem?_eq_none_iff]
  rcases h : pd[pathIndex + instr.geometryIndex]? with _ | seg <;> simp [instructionRow, h]

theorem instructionLoop_eq_none (legCount legIndex pathIndex : Nat) (pd : List Segment)
    (instrs : List RoutingInstruction) (distance time : Double) (rows : List InstructionRow) :
    instructionLoop legCount legIndex pathIndex pd distance time instrs rows = none ↔
      ∃ ins ∈ rowInstructions instrs, pd.length ≤ pathIndex + ins.geometryIndex := by
  induction instrs generalizing distance time rows with
  | nil => simp [instructionLoop]
  | cons ins rest ih =>
    by_cases hskip : ins.type = .noTurn ∨ ins.type = .stayOnRoundabout
    · rw [instructionLoop, if_pos hskip, ih, rowInstructions_cons, if_pos hskip]
    · rw [instructionLoop, if_neg hskip, rowInstructions_cons, if_neg hskip]
      rcases hrow : instructionRow legCount legIndex pathIndex pd (distance + ins.distance)
          (time + ins.time) ins with _ | row
      · -- the row of `ins` reads out of range
        exact iff_of_true rfl ⟨ins, List.mem_cons_self _ _, instructionRow_eq_none.mp hrow⟩
      · have hin : ¬pd.length ≤ pathIndex + ins.geometryIndex := fun h => by
          rw [instructionRow_eq_none.mpr h] at hrow
          cases hrow
        simp [ih, hin]

section Range
variable (bearing : FixedPointCoordinate → FixedPointCoordinate → Int)

theorem renderLeg_eq_none (legCount i : Nat) (acc : Rendered) (r : RoutingResult) :
    renderLeg bearing legCount i acc r = none ↔
      ∃ ins ∈ rowInstructions r.instructions, r.geometry.length ≤ ins.geometryIndex := by
  by_cases hnil : r.instructions = []
  · simp [renderLeg, hnil]
  simp only [renderLeg, if_neg hnil]
  set L := acc.pathDescription.length
  set pd0 := acc.pathDescription ++ r.geometry.map segmentOf
  obtain ⟨pd1, hb, hloc, -⟩ := bearingLoop_spec bearing
    (List.range' (max 1 L) (pd0.length - max 1 L)) pd0 fun i hi => by
      rw [List.mem_range'_1] at hi
      omega
  -- the bearing loop keeps the length: `L` entries before the leg, and its geometry
  have hlen : pd1.length = L + r.geometry.length := by
    simpa [pd0, L] using congrArg List.length hloc
  have hiff := instructionLoop_eq_none legCount i L pd1 r.instructions 0 0 acc.rows
  simp only [hlen, Nat.add_le_add_iff_left] at hiff
  simp only [hb, Option.bind_eq_bind, Option.some_bind, ← hiff]
  cases instructionLoop legCount i L pd1 0 0 r.instructions acc.rows <;> simp

theorem renderLegs_eq_none (legCount i : Nat) (rs : List RoutingResult) (acc : Rendered) :
    renderLegs bearing legCount i rs acc = none ↔
      ∃ r ∈ rs, ∃ ins ∈ rowInstructions r.instructions, r.geometry.length ≤ ins.geometryIndex := by
  induction rs generalizing i acc with
  | nil => simp [renderLegs]
  | cons r rs ih =>
    simp only [renderLegs, Option.bind_eq_bind]
    rcases hleg : renderLeg bearing legCount i acc r with _ | acc'
    · exact iff_of_true rfl
        ⟨r, List.mem_cons_self _ _, (renderLeg_eq_none bearing legCount i acc r).mp hleg⟩
    · have hin : ¬∃ ins ∈ rowInstructions r.instructions, r.geometry.length ≤ ins.geometryIndex :=
        fun h => by
          rw [(renderLeg_eq_none bearing legCount i acc r).mpr h] at hleg
          cases hleg
      simp [ih, hin]

end Range

/-- The rendering loop of `HandleRequest` reads `path_description` out of range, which the
code does not check, exactly when some instruction that gets a row has a geometry index
beyond its own leg's geometry: the geometry indices of `NO_TURN` and `STAY_ON_ROUNDABOUT`
instructions are never read, and the bearing loop always reads in range. -/
theorem rendering_out_of_range_iff (bearing : FixedPointCoordinate → FixedPointCoordinate → Int)
    (results : List RoutingResult) :
    renderLegs bearing results.length 0 results ⟨[], []⟩ = none ↔
      ∃ r ∈ results, ∃ ins ∈ rowInstructions r.instructions,
        r.geometry.length ≤ ins.geometryIndex :=
  renderLegs_eq_none bearing results.length 0 results ⟨[], []⟩

/-! ## Distance and time

A row carries the `double` sums, in instruction order, of the distances and times of the
`NO_TURN` and `STAY_ON_ROUNDABOUT` instructions since the previous row and of its own; the
sums restart at 0 with each leg, so those that end a leg are in no row.
-/

/-- The instructions whose distance and time each row carries, in row order; `pending` are
those run up before `instrs`. -/
def rowGroups (pending : List RoutingInstruction) :
    List RoutingInstruction → List (List RoutingInstruction)
  | [] => []
  | ins :: rest =>
    if ins.type = .noTurn ∨ ins.type = .stayOnRoundabout then rowGroups (pending ++ [ins]) rest
    else (pending ++ [ins]) :: rowGroups [] rest

/-- `double sum = 0;` then `sum += f(instr)` for each instruction of the group, in order. -/
def runningSum (f : RoutingInstruction → Double) (group : List RoutingInstruction) : Double :=
  group.foldl (fun acc ins => acc + f ins) 0

theorem runningSum_concat (f : RoutingInstruction → Double) (group : List RoutingInstruction)
    (ins : RoutingInstruction) : runningSum f (group ++ [ins]) = runningSum f group + f ins :=
  List.foldl_concat _ _ _ _

set_option maxRecDepth 2000 in
example : runningSum (·.distance) [⟨.noTurn, "", 0.1, 0, 0⟩, ⟨.other 2, "", 0.2, 0, 0⟩] ≠ 0.3 := by
  decide

def rowPrefix : List RoutingInstruction → List RoutingInstruction
  | [] => []
  | ins :: rest =>
    if rowPrefix rest = [] ∧ (ins.type = .noTurn ∨ ins.type = .stayOnRoundabout) then []
    else ins :: rowPrefix rest

theorem rowPrefix_cons_skip {ins : RoutingInstruction} (rest : List RoutingInstruction)
    (h : ins.type = .noTurn ∨ ins.type = .stayOnRoundabout) :
    rowPrefix (ins :: rest) = if rowPrefix rest = [] then [] else ins :: rowPrefix rest := by
  by_cases hr : rowPrefix rest = [] <;> simp [rowPrefix, hr, h]

theorem rowPrefix_cons_row {ins : RoutingInstruction} (rest : List RoutingInstruction)
    (h : ¬(ins.type = .noTurn ∨ ins.type = .stayOnRoundabout)) :
    rowPrefix (ins :: rest) = ins :: rowPrefix rest := by
  rw [rowPrefix, if_neg fun h' => h h'.2]

theorem rowPrefix_eq_self {instrs : List RoutingInstruction}
    (hlast : ∀ ins ∈ instrs.getLast?, ¬(ins.type = .noTurn ∨ ins.type = .stayOnRoundabout)) :
    rowPrefix instrs = instrs := by
  induction instrs with
  | nil => rfl
  | cons ins rest ih =>
    cases rest with
    | nil => exact rowPrefix_cons_row [] (hlast ins rfl)
    | cons b l =>
      rw [rowPrefix, ih fun i hi => hlast i (by simpa using hi),
        if_neg fun h => List.cons_ne_nil _ _ h.1]

theorem rowGroups_spec (pending rest : List RoutingInstruction)
    (hpend : ∀ s ∈ pending, s.type = .noTurn ∨ s.type = .stayOnRoundabout) :
    (rowGroups pending rest).flatten = (if rowPrefix rest = [] then [] else pending ++ rowPrefix rest) ∧
      ∀ g ∈ rowGroups pending rest, ∃ skips ins, g = skips ++ [ins] ∧
        (∀ s ∈ skips, s.type = .noTurn ∨ s.type = .stayOnRoundabout) ∧
        ¬(ins.type = .noTurn ∨ ins.type = .stayOnRoundabout) := by
  induction rest generalizing pending with
  | nil => simp [rowGroups, rowPrefix]
  | cons ins rest ih =>
    by_cases hskip : ins.type = .noTurn ∨ ins.type = .stayOnRoundabout
    · obtain ⟨hflat, hshape⟩ := ih (pending ++ [ins]) (by simpa [or_imp, forall_and] using ⟨hpend, hskip⟩)
      rw [rowGroups, if_pos hskip, rowPrefix_cons_skip rest hskip]
      refine ⟨?_, hshape⟩
      rw [hflat]
      split <;> simp
    · obtain ⟨hflat, hshape⟩ := ih [] (by simp)
      rw [rowGroups, if_neg hskip, rowPrefix_cons_row rest hskip, List.flatten_cons, hflat]
      refine ⟨by split <;> simp_all, ?_⟩
      rintro g (_ | ⟨_, hg⟩)
      · exact ⟨pending, ins, rfl, hpend, hskip⟩
      · exact hshape g hg

theorem flatten_flatMap_rowGroups (rs : List RoutingResult) :
    (rs.flatMap (rowGroups [] ·.instructions)).flatten = rs.flatMap (rowPrefix ·.instructions) := by
  simp only [List.flatMap_def, List.flatten_flatten, List.map_map]
  congr 2
  funext r
  rw [Function.comp_apply, (rowGroups_spec [] r.instructions (by simp)).1]
  split <;> simp_all

theorem instructionLoop_sums {legCount legIndex pathIndex : Nat} {pd : List Segment}
    {instrs pending : List RoutingInstruction} {rows out : List InstructionRow}
    (h : instructionLoop legCount legIndex pathIndex pd (runningSum (·.distance) pending)
      (runningSum (·.time) pending) instrs rows = some out) :
    ∃ new, out = rows ++ new ∧
      new.map (·.distance) = (rowGroups pending instrs).map (runningSum (·.distance)) ∧
      new.map (·.time) = (rowGroups pending instrs).map (runningSum (·.time)) := by
  induction instrs generalizing pending rows with
  | nil =>
    cases h
    exact ⟨[], by simp [rowGroups]⟩
  | cons ins rest ih =>
    by_cases hskip : ins.type = .noTurn ∨ ins.type = .stayOnRoundabout
    · -- the instruction's distance and time run on into the next row
      simp only [instructionLoop, if_pos hskip, ← runningSum_concat] at h
      rw [rowGroups, if_pos hskip]
      exact ih h
    · -- the row takes the sums run up, and they restart at 0
      simp only [instructionLoop, if_neg hskip, Option.bind_eq_bind, Option.bind_eq_some,
        ← runningSum_concat] at h
      obtain ⟨row, hrow, h⟩ := h
      obtain ⟨hd, ht, -⟩ := instructionRow_fields hrow
      have h' : instructionLoop legCount legIndex pathIndex pd (runningSum (·.distance) [])
          (runningSum (·.time) []) rest (rows ++ [row]) = some out := h
      obtain ⟨new, rfl, hnd, hnt⟩ := ih h'
      exact ⟨row :: new, by simp, by simp [rowGroups, hskip, hd, hnd],
        by simp [rowGroups, hskip, ht, hnt]⟩

section Sums
variable (bearing : FixedPointCoordinate → FixedPointCoordinate → Int)

theorem renderLegs_sums {legCount i : Nat} {rs : List RoutingResult} {acc route : Rendered}
    (h : renderLegs bearing legCount i rs acc = some route) :
    route.rows.map (·.distance) = acc.rows.map (·.distance) ++
        (rs.flatMap (rowGroups [] ·.instructions)).map (runningSum (·.distance)) ∧
      route.rows.map (·.time) = acc.rows.map (·.time) ++
        (rs.flatMap (rowGroups [] ·.instructions)).map (runningSum (·.time)) := by
  induction rs generalizing i acc with
  | nil =>
    cases h
    simp
  | cons r rs ih =>
    simp only [renderLegs, Option.bind_eq_bind, Option.bind_eq_some] at h
    obtain ⟨acc', hleg, hrest⟩ := h
    obtain ⟨hd, ht⟩ := ih hrest
    rw [hd, ht]
    unfold renderLeg at hleg
    split at hleg
    next hnil =>
      cases hleg
      simp [hnil, rowGroups]
    next =>
      simp only [Option.bind_eq_bind, Option.bind_eq_some, Option.pure_def,
        Option.some.injEq] at hleg
      obtain ⟨_, -, rows, hrows, rfl⟩ := hleg
      obtain ⟨new, rfl, hnd, hnt⟩ := @instructionLoop_sums _ _ _ _ _ [] _ _ hrows
      simp [hnd, hnt]

end Sums

/-- When every instruction's geometry index is within its own leg's geometry, each row's
distance and time are the running `double` sums, in instruction order, of its group: the
`NO_TURN` and `STAY_ON_ROUNDABOUT` instructions since the previous row of its leg, then its
own. Every instruction of a leg up to the last that gets a row enters exactly one group, in
order, and the `NO_TURN` and `STAY_ON_ROUNDABOUT` instructions that end a leg enter none. -/
theorem rendering_rows_accumulate (bearing : FixedPointCoordinate → FixedPointCoordinate → Int)
    (results : List RoutingResult)
    (hgeo : ∀ r ∈ results, ∀ ins ∈ r.instructions, ins.geometryIndex < r.geometry.length) :
    ∃ route, renderLegs bearing results.length 0 results ⟨[], []⟩ = some route ∧
      route.rows.map (·.distance) =
        (results.flatMap (rowGroups [] ·.instructions)).map (runningSum (·.distance)) ∧
      route.rows.map (·.time) =
        (results.flatMap (rowGroups [] ·.instructions)).map (runningSum (·.time)) ∧
      (results.flatMap (rowGroups [] ·.instructions)).flatten =
        results.flatMap (rowPrefix ·.instructions) ∧
      ∀ g ∈ results.flatMap (rowGroups [] ·.instructions), ∃ skips ins, g = skips ++ [ins] ∧
        (∀ s ∈ skips, s.type = .noTurn ∨ s.type = .stayOnRoundabout) ∧
        ¬(ins.type = .noTurn ∨ ins.type = .stayOnRoundabout) := by
  obtain ⟨route, hrun, -⟩ := render_valid bearing results hgeo
  obtain ⟨hd, ht⟩ := renderLegs_sums bearing hrun
  refine ⟨route, hrun, by simpa using hd, by simpa using ht, flatten_flatMap_rowGroups results, ?_⟩
  · simp only [List.mem_flatMap]
    rintro g ⟨r, -, hg⟩
    exact (rowGroups_spec [] r.instructions (by simp)).2 g hg

def trailingNoTurnLeg : List RoutingResult :=
  [⟨.success, [⟨.other 2, "A", 10, 1, 0⟩, ⟨.noTurn, "B", 5, 1, 1⟩], [⟨0, 0⟩, ⟨1, 1⟩]⟩]

/-- On `trailingNoTurnLeg` the one row carries 10 of the leg's 15 metres: the `NO_TURN` enters
no row. -/
theorem rendering_rows_accumulate_trailing :
    (∀ r ∈ trailingNoTurnLeg, ∀ ins ∈ r.instructions, ins.geometryIndex < r.geometry.length) ∧
      ∃ route, renderLegs (fun _ _ => 0) trailingNoTurnLeg.length 0 trailingNoTurnLeg ⟨[], []⟩ =
        some route ∧ route.rows.map (·.distance) = [10] :=
  have h : ∀ r ∈ trailingNoTurnLeg, ∀ ins ∈ r.instructions,
      ins.geometryIndex < r.geometry.length := by
    decide
  let ⟨route, hrun, hd, _⟩ := rendering_rows_accumulate (fun _ _ => 0) trailingNoTurnLeg h
  ⟨h, route, hrun, hd.trans (by decide)⟩

/-! ## What `HandleRequest` answers -/

/-- What the rendering needs of a `RoutingResult`: each instruction's geometry index within
the geometry, and a last instruction that gets a row, as a `REACHED_YOUR_DESTINATION` does. -/
def RoutingResult.Renderable (r : RoutingResult) : Prop :=
  (∀ ins ∈ r.instructions, ins.geometryIndex < r.geometry.length) ∧
  ∀ ins ∈ r.instructions.getLast?, ¬(ins.type = .noTurn ∨ ins.type = .stayOnRoundabout)

/-- When the `RouteFinder` routes every query with results the rendering can use, a request
of `n ≥ 2` coordinates within the limit is answered with a route, never with an out-of-range
read: one result per leg, `path_description` laid out from their geometries, and rows whose
distances and times are the running `double` sums of their groups, every instruction of every
leg entering exactly one group, in order. -/
theorem handleRequest_found (find : RoutingQuery → Except String RoutingResult)
    (bearing : FixedPointCoordinate → FixedPointCoordinate → Int) (maxLocationsViaroute : Int)
    (coordinates : List FixedPointCoordinate) (hn : 2 ≤ coordinates.length)
    (hmax : 0 < maxLocationsViaroute → coordinates.length ≤ maxLocationsViaroute)
    (hroutes : ∀ q, routes find q = true) (hfind : ∀ q r, find q = .ok r → r.Renderable) :
    ∃ results route,
      (handleRequest find bearing maxLocationsViaroute coordinates).2 = .found route ∧
      results.length = coordinates.length - 1 ∧ (∀ r ∈ results, ∃ q, find q = .ok r) ∧
      route.pathDescription.map (·.location) = pathLocations results ∧
      route.rows.map (·.distance) =
        (results.flatMap (rowGroups [] ·.instructions)).map (runningSum (·.distance)) ∧
      route.rows.map (·.time) =
        (results.flatMap (rowGroups [] ·.instructions)).map (runningSum (·.time)) ∧
      (results.flatMap (rowGroups [] ·.instructions)).flatten =
        results.flatMap (·.instructions) := by
  obtain ⟨c0, c1, rest, rfl⟩ : ∃ c0 c1 rest, coordinates = c0 :: c1 :: rest := by
    match coordinates, hn with
    | c0 :: c1 :: rest, _ => exact ⟨c0, c1, rest, rfl⟩
  have hlim : ¬(0 < maxLocationsViaroute ∧ maxLocationsViaroute < (c0 :: c1 :: rest).length) :=
    fun ⟨h0, hlt⟩ => absurd (hmax h0) (by omega)
  obtain ⟨-, results, hres, hlen⟩ :=
    legLoop_of_routes find c0 c1 (hroutes _) (rest.length + 1)
  have hfrom := legLoop_results find c0 c1 hres
  have hrend : ∀ r ∈ results, r.Renderable := fun r hr => hfind _ r (hfrom r hr)
  obtain ⟨route, hrun, hv⟩ := render_valid bearing results fun r hr => (hrend r hr).1
  obtain ⟨hd, ht⟩ := renderLegs_sums bearing hrun
  -- every leg ends with an instruction that gets a row
  have hall : results.flatMap (rowPrefix ·.instructions) = results.flatMap (·.instructions) :=
    List.flatMap_congr fun r hr => rowPrefix_eq_self (hrend r hr).2
  refine ⟨results, route, ?_, by simpa using hlen, fun r hr => ⟨_, hfrom r hr⟩, hv.1,
    by simpa using hd, by simpa using ht, (flatten_flatMap_rowGroups results).trans hall⟩
  rw [handleRequest, if_neg hlim]
  simp only [List.length_cons, Nat.add_sub_cancel, hres, hrun]

def arrivalFinder : RoutingQuery → Except String RoutingResult :=
  fun _ => .ok ⟨.success, [⟨.reachedYourDestination, "", 3, 2, 1⟩], [⟨0, 0⟩, ⟨1, 1⟩]⟩

/-- Two waypoints and `arrivalFinder`: the route found has one row, of the leg's distance. -/
theorem handleRequest_found_arrival :
    (2 ≤ [(⟨0, 0⟩ : FixedPointCoordinate), ⟨1, 1⟩].length ∧
      (0 < (0 : Int) → ([(⟨0, 0⟩ : FixedPointCoordinate), ⟨1, 1⟩].length : Int) ≤ 0) ∧
      (∀ q, routes arrivalFinder q = true) ∧ (∀ q r, arrivalFinder q = .ok r → r.Renderable)) ∧
    ∃ (results : List RoutingResult) (route : Rendered),
      (handleRequest arrivalFinder (fun _ _ => 0) 0 [⟨0, 0⟩, ⟨1, 1⟩]).2 = .found route ∧
      results.length = 1 ∧ route.rows.map (·.distance) = [3] := by
  have hfind : ∀ q r, arrivalFinder q = .ok r → r.Renderable := by
    rintro q r ⟨⟩
    exact ⟨by decide, by decide⟩
  obtain ⟨results, route, hr, hlen, hfrom, -, hd, -⟩ := handleRequest_found arrivalFinder
    (fun _ _ => 0) 0 [⟨0, 0⟩, ⟨1, 1⟩] (by decide) (by decide) (fun _ => rfl) hfind
  refine ⟨⟨by decide, by decide, fun _ => rfl, hfind⟩, results, route, hr, hlen, ?_⟩
  obtain ⟨r, rfl⟩ := List.length_eq_one.mp hlen
  obtain ⟨q, ⟨⟩⟩ := hfrom r (List.mem_singleton_self _)
  rw [hd]
  decide

end OsrmNutiteq.Nuti

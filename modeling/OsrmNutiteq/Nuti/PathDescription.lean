import OsrmNutiteq.Nuti.RouteRendering

/-! # What `path_description` holds after the rendering loop

Locations never change and each bearing loop reads the entry before the one it writes, so
after the loop `path_description` is a function of its locations alone, and the rows' point
indices are the legs' geometry indices shifted leg after leg.
-/
namespace OsrmNutiteq.Nuti
open FixedPointCoordinate (ofWGSPos)

section Describe
variable (bearing : FixedPointCoordinate → FixedPointCoordinate → Int)

/-- The entry for location `c` after location `prev`, if there is one: the bearings from
`prev` to `c` and back, or the constructor's 0 for the first entry. -/
def describeSegment : Option FixedPointCoordinate → FixedPointCoordinate → Segment
  | none, c => ⟨c, 0, 0⟩
  | some p, c => ⟨c, bearing p c, bearing c p⟩

def describePath : Option FixedPointCoordinate → List FixedPointCoordinate → List Segment
  | _, [] => []
  | prev, c :: cs => describeSegment bearing prev c :: describePath (some c) cs

@[simp] theorem describeSegment_location (prev : Option FixedPointCoordinate)
    (c : FixedPointCoordinate) : (describeSegment bearing prev c).location = c := by
  cases prev <;> rfl

theorem getElem?_describePath (prev : Option FixedPointCoordinate)
    (locs : List FixedPointCoordinate) (k : Nat) :
    (describePath bearing prev locs)[k]? =
      locs[k]?.map (describeSegment bearing (if k = 0 then prev else locs[k - 1]?)) := by
  induction locs generalizing prev k with
  | nil => rfl
  | cons c cs ih =>
    cases k with
    | zero => simp [describePath]
    | succ k =>
      rw [describePath, List.getElem?_cons_succ, ih]
      cases k <;> simp

@[simp] theorem map_location_describePath (prev : Option FixedPointCoordinate)
    (locs : List FixedPointCoordinate) : (describePath bearing prev locs).map (·.location) = locs := by
  induction locs generalizing prev with
  | nil => rfl
  | cons c cs ih => simp [describePath, ih]

@[simp] theorem length_describePath (prev : Option FixedPointCoordinate)
    (locs : List FixedPointCoordinate) : (describePath bearing prev locs).length = locs.length := by
  have h := congrArg List.length (map_location_describePath bearing prev locs)
  rwa [List.length_map] at h

theorem bearingLoop_range (a : Nat) (pd : List Segment) (ha : 1 ≤ a) :
    ∃ pd', bearingLoop bearing pd (List.range' a (pd.length - a)) = some pd' ∧
      ∀ k, pd'[k]? = if a ≤ k then
        (pd.map (·.location))[k]?.map (describeSegment bearing (pd.map (·.location))[k - 1]?)
      else pd[k]? := by
  obtain ⟨n, hn⟩ : ∃ n, pd.length - a = n := ⟨_, rfl⟩
  rw [hn]
  induction n generalizing a pd with
  | zero =>
    refine ⟨pd, rfl, fun k => ?_⟩
    split
    next hk => simp [List.getElem?_eq_none (show pd.length ≤ k by omega)]
    next => rfl
  | succ n ih =>
    have hlt : a < pd.length := by omega
    have hlt' : a - 1 < pd.length := by omega
    set seg := describeSegment bearing (some pd[a - 1].location) pd[a].location with hseg
    have hloc : (pd.set a seg).map (·.location) = pd.map (·.location) := by
      refine List.ext_getElem (by simp) fun k _ _ => ?_
      simp only [List.getElem_map, List.getElem_set]
      split
      · subst_vars
        exact describeSegment_location bearing _ _
      · rfl
    obtain ⟨pd', hrun, hk⟩ := ih (a + 1) (pd.set a seg) (by omega)
      (by rw [List.length_set]; omega)
    refine ⟨pd', ?_, fun k => ?_⟩
    · simp only [List.range'_succ, bearingLoop, List.getElem?_eq_getElem hlt,
        List.getElem?_eq_getElem hlt', Option.bind_eq_bind, Option.some_bind]
      exact hrun
    · rw [hk k, hloc]
      by_cases hka : k = a
      · subst hka
        rw [if_neg (by omega), if_pos le_rfl, List.getElem?_set_self hlt]
        simp [List.getElem?_eq_getElem hlt, List.getElem?_eq_getElem hlt', hseg]
      · rw [List.getElem?_set_ne (Ne.symm hka)]
        exact if_congr (by omega) rfl rfl

theorem renderLeg_describePath {legCount i : Nat} {acc acc' : Rendered} {r : RoutingResult}
    {locs : List FixedPointCoordinate} (hd : acc.pathDescription = describePath bearing none locs)
    (h : renderLeg bearing legCount i acc r = some acc') :
    acc'.pathDescription = describePath bearing none
      (locs ++ if r.instructions = [] then [] else r.geometry.map ofWGSPos) := by
  unfold renderLeg at h
  split at h
  next hnil =>
    cases h
    simpa [hnil] using hd
  next hnil =>
    simp only [Option.bind_eq_bind, Option.bind_eq_some, Option.pure_def, Option.some.injEq] at h
    obtain ⟨pd, hb, _, -, rfl⟩ := h
    rw [if_neg hnil]
    rw [hd, length_describePath] at hb
    generalize hpd0 : describePath bearing none locs ++ r.geometry.map segmentOf = pd0 at hb
    obtain ⟨pd', hb', hk⟩ := bearingLoop_range bearing (max 1 locs.length) pd0 (le_max_left _ _)
    obtain rfl : pd = pd' := Option.some.inj (hb.symm.trans hb')
    have hlocs : pd0.map (·.location) = locs ++ r.geometry.map ofWGSPos := by
      rw [← hpd0]
      simp [segmentOf, Function.comp_def]
    refine List.ext_getElem? fun k => ?_
    rw [hk k, hlocs, getElem?_describePath]
    by_cases hr : max 1 locs.length ≤ k
    · rw [if_pos hr, if_neg (by omega)]
    rw [if_neg hr, ← hpd0]
    rcases (by omega : k < locs.length ∨ (locs.length = 0 ∧ k = 0)) with hk | ⟨h0, rfl⟩
    · -- an entry of the earlier legs stays as it was
      rw [List.getElem?_append_left (by simpa using hk), getElem?_describePath,
        List.getElem?_append_left hk, List.getElem?_append_left (by omega : k - 1 < locs.length)]
    · -- the first entry of all keeps the constructor's bearings
      rw [List.length_eq_zero.mp h0]
      cases r.geometry <;> simp [describePath, segmentOf, describeSegment]

theorem pathLocations_cons (r : RoutingResult) (rs : List RoutingResult) :
    pathLocations (r :: rs) =
      (if r.instructions = [] then [] else r.geometry.map ofWGSPos) ++ pathLocations rs := by
  by_cases h : r.instructions = [] <;> simp [pathLocations, h]

theorem renderLegs_describePath {legCount i : Nat} {rs : List RoutingResult} {acc route : Rendered}
    {locs : List FixedPointCoordinate} (hd : acc.pathDescription = describePath bearing none locs)
    (h : renderLegs bearing legCount i rs acc = some route) :
    route.pathDescription = describePath bearing none (locs ++ pathLocations rs) := by
  induction rs generalizing i acc locs with
  | nil =>
    cases h
    simpa [pathLocations] using hd
  | cons r rs ih =>
    simp only [renderLegs, Option.bind_eq_bind, Option.bind_eq_some] at h
    obtain ⟨acc', hleg, hrest⟩ := h
    rw [ih (renderLeg_describePath bearing hd hleg) hrest, pathLocations_cons, List.append_assoc]

end Describe

/-- When every instruction's geometry index is within its own leg's geometry, the rendering
loop leaves `path_description` as `describePath` of the locations of the legs with
instructions: the first entry with bearings 0, every later one with the bearings between the
location before it and its own, across the joins of legs too. So a row at the first point
shows bearings 0, and a row at any later point the bearing from the point before it to its
own and back, in degrees. -/
theorem rendering_describes_path (bearing : FixedPointCoordinate → FixedPointCoordinate → Int)
    (results : List RoutingResult)
    (hgeo : ∀ r ∈ results, ∀ ins ∈ r.instructions, ins.geometryIndex < r.geometry.length) :
    ∃ route, renderLegs bearing results.length 0 results ⟨[], []⟩ = some route ∧
      route.pathDescription = describePath bearing none (pathLocations results) ∧
      ∀ row ∈ route.rows, ∃ c, (pathLocations results)[row.pointIndex]? = some c ∧
        (row.pointIndex = 0 ∧ row.postTurnBearing = 0 ∧ row.preTurnBearing = 0 ∨
          ∃ p, (pathLocations results)[row.pointIndex - 1]? = some p ∧ 0 < row.pointIndex ∧
            row.postTurnBearing = .ofInt (bearing p c) / 10.0 ∧
            row.preTurnBearing = .ofInt (bearing c p) / 10.0) := by
  obtain ⟨route, hrun, hv⟩ := render_valid bearing results hgeo
  have hpd : route.pathDescription = describePath bearing none (pathLocations results) :=
    renderLegs_describePath bearing
    (show (⟨[], []⟩ : Rendered).pathDescription = describePath bearing none [] from rfl) hrun
  refine ⟨route, hrun, hpd, fun row hrow => ?_⟩
  obtain ⟨_, _, _, -, -, seg, _, hseg, -, -, hpost, hpre⟩ := hv.exists_rowOf hrow
  rw [hpd, getElem?_describePath] at hseg
  obtain ⟨c, hc, rfl⟩ := Option.map_eq_some'.mp hseg
  refine ⟨c, hc, ?_⟩
  by_cases h0 : row.pointIndex = 0
  · simp only [h0, if_true, describeSegment] at hpost hpre
    exact .inl ⟨h0, hpost.trans (Double.zero_div _), hpre.trans (Double.zero_div _)⟩
  · have hlt := (List.getElem?_eq_some_iff.mp hc).1
    rw [if_neg h0, List.getElem?_eq_getElem (by omega : row.pointIndex - 1 < _)] at hpost hpre
    exact .inr ⟨_, List.getElem?_eq_getElem (by omega), by omega, hpost, hpre⟩

/-- On `sampleLegs` the rendering lays `path_description` along the two geometries. -/
theorem rendering_describes_path_sample :
    (∀ r ∈ sampleLegs, ∀ ins ∈ r.instructions, ins.geometryIndex < r.geometry.length) ∧
      ∃ route, renderLegs (fun _ _ => 0) sampleLegs.length 0 sampleLegs ⟨[], []⟩ = some route ∧
        route.pathDescription = describePath (fun _ _ => 0) none (pathLocations sampleLegs) :=
  have h : ∀ r ∈ sampleLegs, ∀ ins ∈ r.instructions, ins.geometryIndex < r.geometry.length := by
    decide
  let ⟨route, hrun, hpd, _⟩ := rendering_describes_path (fun _ _ => 0) sampleLegs h
  ⟨h, route, hrun, hpd⟩

/-! ## The order of the rows' point indices -/

/-- The rows' point indices for the legs `rs`, the first of them at entry `offset` of
`path_description`. -/
def rowPoints : Nat → List RoutingResult → List Nat
  | _, [] => []
  | offset, r :: rs => (rowInstructions r.instructions).map (offset + ·.geometryIndex) ++
      rowPoints (offset + if r.instructions = [] then 0 else r.geometry.length) rs

section Points
variable (bearing : FixedPointCoordinate → FixedPointCoordinate → Int)

theorem renderLegs_points {legCount i : Nat} {rs : List RoutingResult} {acc route : Rendered}
    {locs : List FixedPointCoordinate} (hd : acc.pathDescription = describePath bearing none locs)
    (h : renderLegs bearing legCount i rs acc = some route) :
    route.rows.map (·.pointIndex) = acc.rows.map (·.pointIndex) ++ rowPoints locs.length rs := by
  induction rs generalizing i acc locs with
  | nil =>
    cases h
    simp [rowPoints]
  | cons r rs ih =>
    simp only [renderLegs, Option.bind_eq_bind, Option.bind_eq_some] at h
    obtain ⟨acc', hleg, hrest⟩ := h
    have hlen : (locs ++ if r.instructions = [] then [] else r.geometry.map ofWGSPos).length =
        locs.length + if r.instructions = [] then 0 else r.geometry.length := by
      split <;> simp
    rw [ih (renderLeg_describePath bearing hd hleg) hrest, hlen, rowPoints,
      renderLeg_map bearing _ (fun pathIndex ins => pathIndex + ins.geometryIndex)
        (fun _ _ _ _ _ _ h => (instructionRow_fields h).2.2.2) hleg, hd, length_describePath,
      List.append_assoc]

end Points

theorem rowPoints_sorted (offset : Nat) (rs : List RoutingResult)
    (hgeo : ∀ r ∈ rs, ∀ ins ∈ r.instructions, ins.geometryIndex < r.geometry.length)
    (hsorted : ∀ r ∈ rs,
      (rowInstructions r.instructions).Pairwise (·.geometryIndex ≤ ·.geometryIndex)) :
    (rowPoints offset rs).Pairwise (· ≤ ·) ∧ ∀ p ∈ rowPoints offset rs, offset ≤ p := by
  induction rs generalizing offset with
  | nil => exact ⟨.nil, by simp [rowPoints]⟩
  | cons r rs ih =>
    obtain ⟨hs, hlo⟩ := ih (offset + if r.instructions = [] then 0 else r.geometry.length)
      (fun r' h => hgeo r' (List.mem_cons_of_mem _ h))
      (fun r' h => hsorted r' (List.mem_cons_of_mem _ h))
    -- a point of this leg is within its slice, below every point of the later legs
    have hin : ∀ ins ∈ rowInstructions r.instructions,
        offset + ins.geometryIndex < offset + if r.instructions = [] then 0 else r.geometry.length := by
      intro ins hins
      have hmem := (List.mem_filter.mp hins).1
      rw [if_neg (List.ne_nil_of_mem hmem)]
      have := hgeo r (List.mem_cons_self _ _) ins hmem
      omega
    rw [rowPoints, List.pairwise_append, List.pairwise_map]
    refine ⟨⟨(hsorted r (List.mem_cons_self _ _)).imp (by omega), hs, ?_⟩, ?_⟩
    · simp only [List.mem_map]
      rintro _ ⟨ins, hins, rfl⟩ p hp
      have := hin ins hins
      have := hlo p hp
      omega
    · simp only [List.mem_append, List.mem_map]
      rintro p (⟨ins, -, rfl⟩ | hp)
      · omega
      · have := hlo p hp
        omega

/-- When every instruction's geometry index is within its own leg's geometry, the rows' point
indices are those of `rowPoints`: each row's instruction's geometry index shifted by the
total geometry length of the earlier legs with instructions, leg after leg. So when, besides,
the instructions that get rows have ascending geometry indices within each leg, the rows'
point indices ascend along the whole route. -/
theorem rendering_row_points_ascend
    (bearing : FixedPointCoordinate → FixedPointCoordinate → Int) (results : List RoutingResult)
    (hgeo : ∀ r ∈ results, ∀ ins ∈ r.instructions, ins.geometryIndex < r.geometry.length) :
    ∃ route, renderLegs bearing results.length 0 results ⟨[], []⟩ = some route ∧
      route.rows.map (·.pointIndex) = rowPoints 0 results ∧
      ((∀ r ∈ results,
          (rowInstructions r.instructions).Pairwise (·.geometryIndex ≤ ·.geometryIndex)) →
        (route.rows.map (·.pointIndex)).Pairwise (· ≤ ·)) := by
  obtain ⟨route, hrun, -⟩ := render_valid bearing results hgeo
  have hp : route.rows.map (·.pointIndex) = rowPoints 0 results :=
    renderLegs_points bearing
    (show (⟨[], []⟩ : Rendered).pathDescription = describePath bearing none [] from rfl) hrun
  exact ⟨route, hrun, hp, fun hsorted => hp ▸ (rowPoints_sorted 0 results hgeo hsorted).1⟩

/-- On `sampleLegs` the two rows sit at entries 1 and 3 of `path_description`. -/
theorem rendering_row_points_ascend_sample :
    (∀ r ∈ sampleLegs, ∀ ins ∈ r.instructions, ins.geometryIndex < r.geometry.length) ∧
      ∃ route, renderLegs (fun _ _ => 0) sampleLegs.length 0 sampleLegs ⟨[], []⟩ = some route ∧
        route.rows.map (·.pointIndex) = [1, 3] :=
  have hg : ∀ r ∈ sampleLegs, ∀ ins ∈ r.instructions, ins.geometryIndex < r.geometry.length := by
    decide
  let ⟨route, hrun, hp, _⟩ := rendering_row_points_ascend (fun _ _ => 0) sampleLegs hg
  ⟨hg, route, hrun, hp.trans (by decide)⟩

end OsrmNutiteq.Nuti

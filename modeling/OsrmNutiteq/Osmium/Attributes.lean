import OsrmNutiteq.Osmium.Buffer

/-! # Attribute loops of the XML parser

Each start tag's attributes are read by one loop that keeps, per variable, the last value it
meets; `init_object` and `init_changeset` hand the other attributes to libosmium's
`set_attribute`.
-/
namespace OsrmNutiteq.Osmium
open Xml

/-- The exceptions raised inside the callbacks or by Expat. -/
inductive ParseError where
  /-- `format_version_error`, without or with the offending version. -/
  | formatVersion (version : Option String)
  /-- `xml_error` built from a message. -/
  | xml (message : String)
  /-- `xml_error` built from Expat's error state. -/
  | expat (line column : Nat) (errorString : String)
  /-- `std::invalid_argument` from `set_visible`. -/
  | invalidArgument (message : String)
  /-- `ParserIsDone`, raised once the header is read when nothing else is wanted. -/
  | parserIsDone
  deriving DecidableEq, Repr

def ParseError.what : ParseError → String
  | .formatVersion none =>
    "Can not read file without version (missing version attribute on osm element)."
  | .formatVersion (some v) => "Can not read file with version " ++ v
  | .xml m => m
  | .expat line column e =>
    "XML parsing error at line " ++ toString line ++ ", column " ++ toString column ++ ": " ++ e
  | .invalidArgument m => m
  | .parserIsDone => "std::exception"

@[simp] theorem except_pure_eq {ε α : Type} (a : α) : (pure a : Except ε α) = .ok a := rfl

@[simp] theorem except_ok_bind {ε α β : Type} (a : α) (f : α → Except ε β) :
    (Except.ok a >>= f) = f a := rfl

@[simp] theorem except_error_bind {ε α β : Type} (e : ε) (f : α → Except ε β) :
    (Except.error e >>= f) = Except.error e := rfl

theorem except_bind_eq_ok {ε α β : Type} {x : Except ε α} {f : α → Except ε β} {b : β}
    (h : (x >>= f) = .ok b) : ∃ a, x = .ok a ∧ f a = .ok b := by
  cases x with
  | error e => cases h
  | ok a => exact ⟨a, rfl, h⟩

theorem except_bind_eq_error {ε α β : Type} {x : Except ε α} {f : α → Except ε β} {e : ε}
    (h : (x >>= f) = .error e) : x = .error e ∨ ∃ a, x = .ok a ∧ f a = .error e := by
  cases x with
  | error e' => cases h; exact .inl rfl
  | ok a => exact .inr ⟨a, rfl, h⟩

theorem attrValue_foldl (name : String) (l : Attrs) (acc : Option String) :
    l.foldl (fun acc a => if a.1 = name then some a.2 else acc) acc = (attrValue name l).or acc := by
  induction l generalizing acc with
  | nil => cases acc <;> rfl
  | cons a l ih =>
    have hcons : attrValue name (a :: l) =
        (attrValue name l).or (if a.1 = name then some a.2 else none) := ih _
    rw [List.foldl_cons, ih, hcons]
    by_cases h : a.1 = name <;> cases attrValue name l <;> simp [h]

@[simp] theorem attrValue_cons (name : String) (a : String × String) (l : Attrs) :
    attrValue name (a :: l) = (attrValue name l).or (if a.1 = name then some a.2 else none) :=
  attrValue_foldl name l _

/-! ## The osm header -/

/-- `osmium::io::Header`: its option map, its boxes (each the corners given, as text) and
the flag `osmChange` files set. -/
structure Header where
  options : List (String × String)
  boxes : List (List (String × String))
  hasMultipleObjectVersions : Bool
  deriving DecidableEq, Repr

def Header.init : Header := ⟨[], [], false⟩

def Header.set (h : Header) (key value : String) : Header :=
  { h with options := (key, value) :: h.options.filter (·.1 != key) }

def Header.get (h : Header) (key : String) : String :=
  ((h.options.find? (·.1 == key)).map (·.2)).getD ""

@[simp] theorem Header.get_set (h : Header) (k v : String) : (h.set k v).get k = v := by
  simp [Header.set, Header.get]

/-- The attribute loop of the `osm`/`osmChange` element: the header it leaves and the
`format_version_error` it throws, which it throws after writing the version. -/
def rootAttributes (h : Header) : Attrs → Header × Option ParseError
  | [] => (h, none)
  | (n, v) :: rest =>
    if n = "version" then
      if v ≠ "0.6" then (h.set "version" v, some (.formatVersion (some v)))
      else rootAttributes (h.set "version" v) rest
    else if n = "generator" then rootAttributes (h.set "generator" v) rest
    else rootAttributes h rest

theorem Header.get_set_ne (h : Header) {k k' : String} (v : String) (hk : k ≠ k') :
    (h.set k v).get k' = h.get k' := by
  have hb : (k == k') = false := by simpa using hk
  have hf : ∀ l : List (String × String),
      (l.filter (·.1 != k)).find? (·.1 == k') = l.find? (·.1 == k') := fun l => by
    induction l with
    | nil => rfl
    | cons o os ih =>
      by_cases ho : o.1 = k
      · simp [List.filter_cons, ho, hk, ih]
      · by_cases ho' : o.1 = k' <;> simp [List.filter_cons, List.find?_cons, ho, ho', ih, Ne.symm hk]
  simp only [Header.set, Header.get, List.find?_cons, hb, hf]

theorem rootAttributes_version (h : Header) (a : Attrs) (hv : ∀ v, ("version", v) ∈ a → v = "0.6") :
    ∃ h', rootAttributes h a = (h', none) ∧
      (h.get "version" = "0.6" ∨ ("version", "0.6") ∈ a → h'.get "version" = "0.6") := by
  induction a generalizing h with
  | nil => exact ⟨h, rfl, by simp⟩
  | cons nv rest ih =>
    obtain ⟨n, v⟩ := nv
    have hrest := fun v hm => hv v (List.mem_cons_of_mem _ hm)
    by_cases hn : n = "version"
    · subst hn
      obtain rfl := hv v (List.mem_cons_self _ _)
      obtain ⟨h', e, hh'⟩ := ih (h.set "version" "0.6") hrest
      exact ⟨h', by simp [rootAttributes, e], fun _ => hh' (.inl (Header.get_set ..))⟩
    · have hmem : ("version", "0.6") ∈ (n, v) :: rest ↔ ("version", "0.6") ∈ rest := by
        simp [Ne.symm hn]
      by_cases hg : n = "generator"
      · subst hg
        obtain ⟨h', e, hh'⟩ := ih (h.set "generator" v) hrest
        refine ⟨h', by simp [rootAttributes, e], fun hc => hh' ?_⟩
        rwa [Header.get_set_ne _ _ (by decide), ← hmem]
      · obtain ⟨h', e, hh'⟩ := ih h hrest
        exact ⟨h', by simp [rootAttributes, hn, hg, e], fun hc => hh' (by rwa [← hmem])⟩

theorem rootAttributes_bad_version (h : Header) {a : Attrs} {n v : String}
    (hf : a.find? (fun nv => nv.1 = "version" ∧ nv.2 ≠ "0.6") = some (n, v)) :
    (rootAttributes h a).2 = some (.formatVersion (some v)) ∧
      (rootAttributes h a).1.get "version" = v := by
  induction a generalizing h with
  | nil => cases hf
  | cons nv rest ih =>
    obtain ⟨n', v'⟩ := nv
    by_cases hb : n' = "version" ∧ v' ≠ "0.6"
    · rw [List.find?_cons_of_pos _ (by simpa using hb)] at hf
      cases hf
      simp [rootAttributes, hb.1, hb.2]
    · rw [List.find?_cons_of_neg _ (by simpa using hb)] at hf
      unfold rootAttributes
      split_ifs <;> first | exact ih _ hf | simp_all

theorem rootAttributes_no_version (h : Header) {a : Attrs} (hn : ∀ nv ∈ a, nv.1 ≠ "version") :
    ∃ h', rootAttributes h a = (h', none) ∧ h'.get "version" = h.get "version" := by
  induction a generalizing h with
  | nil => exact ⟨h, rfl, rfl⟩
  | cons nv rest ih =>
    obtain ⟨n, v⟩ := nv
    have hn' : n ≠ "version" := hn _ (List.mem_cons_self _ _)
    have hrest := fun nv hm => hn nv (List.mem_cons_of_mem _ hm)
    by_cases hg : n = "generator"
    · subst hg
      obtain ⟨h', e, hh'⟩ := ih (h.set "generator" v) hrest
      exact ⟨h', by simp [rootAttributes, e], hh'.trans (Header.get_set_ne _ _ (by decide))⟩
    · obtain ⟨h', e, hh'⟩ := ih h hrest
      exact ⟨h', by simp [rootAttributes, hn', hg, e], hh'⟩

/-- A `Location` the loops fill in: it counts only once both coordinates are set. -/
def corner (lonName latName : String) (attrs : Attrs) : List (String × String) :=
  match attrValue lonName attrs, attrValue latName attrs with
  | some x, some y => [(x, y)]
  | _, _ => []

/-- The box of a `bounds` element: `box.extend(min).extend(max)`. -/
def boundsBox (attrs : Attrs) : List (String × String) :=
  corner "minlon" "minlat" attrs ++ corner "maxlon" "maxlat" attrs

/-! ## Objects and changesets -/

/-- libosmium's `OSMObject::set_attribute`. `visible` is parsed, anything but "true" or
"false" raising `std::invalid_argument`; the typed setters of the other attributes are
not modelled and their values are kept as text. -/
def setAttribute (h : ObjectHeader) (name value : String) : Except ParseError ObjectHeader :=
  if name = "visible" then
    if value = "true" then .ok { h with visible := true }
    else if value = "false" then .ok { h with visible := false }
    else .error (.invalidArgument "Unknown value for visible attribute (allowed is 'true' or 'false')")
  else .ok { h with fields := h.fields ++ [(name, value)] }

/-- The locals of `init_object`'s loop: the object so far, `location` and `user`. -/
structure ObjectInit where
  header : ObjectHeader
  lon : Option String
  lat : Option String
  user : String

def initObjectLoop (s : ObjectInit) : Attrs → Except ParseError ObjectInit
  | [] => .ok s
  | (n, v) :: rest =>
    if n = "lon" then initObjectLoop { s with lon := some v } rest
    else if n = "lat" then initObjectLoop { s with lat := some v } rest
    else if n = "user" then initObjectLoop { s with user := v } rest
    else do
      let h ← setAttribute s.header n v
      initObjectLoop { s with header := h } rest

/-- `init_object` followed by `add_user` on its result. A node keeps the location once
both coordinates were given; the other kinds drop it. -/
def initObject (inDeleteSection : Bool) (type : ItemType) (attrs : Attrs) :
    Except ParseError ObjectHeader := do
  let s ← initObjectLoop ⟨⟨!inDeleteSection, "", [], []⟩, none, none, ""⟩ attrs
  let location := match s.lon, s.lat with
    | some x, some y => if type = .node then [(x, y)] else []
    | _, _ => []
  pure { s.header with location, user := s.user }

structure ChangesetInit where
  fields : Attrs
  minLon : Option String
  minLat : Option String
  maxLon : Option String
  maxLat : Option String
  user : String

/-- `init_changeset`'s loop; `Changeset::set_attribute` keeps its values as text. -/
def initChangesetLoop (s : ChangesetInit) : Attrs → ChangesetInit
  | [] => s
  | (n, v) :: rest =>
    if n = "min_lon" then initChangesetLoop { s with minLon := some v } rest
    else if n = "min_lat" then initChangesetLoop { s with minLat := some v } rest
    else if n = "max_lon" then initChangesetLoop { s with maxLon := some v } rest
    else if n = "max_lat" then initChangesetLoop { s with maxLat := some v } rest
    else if n = "user" then initChangesetLoop { s with user := v } rest
    else initChangesetLoop { s with fields := s.fields ++ [(n, v)] } rest

/-- `init_changeset`: the bounds are extended by `min`, then by `max`. -/
def initChangeset (attrs : Attrs) : ObjectHeader :=
  let s := initChangesetLoop ⟨[], none, none, none, none, ""⟩ attrs
  let point : Option String → Option String → List (String × String)
    | some x, some y => [(x, y)]
    | _, _ => []
  { visible := true, user := s.user, location := point s.minLon s.minLat ++ point s.maxLon s.maxLat,
    fields := s.fields }

def VisibleValid (attrs : Attrs) : Prop := ∀ a ∈ attrs, a.1 = "visible" → a.2 = "true" ∨ a.2 = "false"

/-- The attributes `init_object` hands to `set_attribute` and that are not `visible`. -/
def objectFields (attrs : Attrs) : Attrs :=
  attrs.filter fun a => !(["lon", "lat", "user", "visible"].contains a.1)

/-- The object header an element's attributes describe: visible as its `visible` attribute
says when it has one, and otherwise exactly when it lies outside a delete section. -/
def objectHeader (inDeleteSection : Bool) (type : ItemType) (attrs : Attrs) : ObjectHeader where
  visible := ((attrValue "visible" attrs).map (· == "true")).getD !inDeleteSection
  user := (attrValue "user" attrs).getD ""
  location := if type = .node then corner "lon" "lat" attrs else []
  fields := objectFields attrs

theorem initObjectLoop_eq (s : ObjectInit) (attrs : Attrs) (hv : VisibleValid attrs) :
    initObjectLoop s attrs = .ok
      { header := { s.header with
          visible := ((attrValue "visible" attrs).map (· == "true")).getD s.header.visible
          fields := s.header.fields ++ objectFields attrs }
        lon := (attrValue "lon" attrs).or s.lon
        lat := (attrValue "lat" attrs).or s.lat
        user := (attrValue "user" attrs).getD s.user } := by
  induction attrs generalizing s with
  | nil => simp [initObjectLoop, objectFields]
  | cons a rest ih =>
    obtain ⟨n, v⟩ := a
    have hr : VisibleValid rest := fun a ha => hv a (List.mem_cons_of_mem _ ha)
    by_cases hlon : n = "lon"
    · subst hlon; simp [initObjectLoop, ih _ hr, objectFields]; cases attrValue "lon" rest <;> rfl
    by_cases hlat : n = "lat"
    · subst hlat; simp [initObjectLoop, ih _ hr, objectFields]; cases attrValue "lat" rest <;> rfl
    by_cases huser : n = "user"
    · subst huser; simp [initObjectLoop, ih _ hr, objectFields]; cases attrValue "user" rest <;> rfl
    by_cases hvis : n = "visible"
    · subst hvis
      rcases hv _ (List.mem_cons_self _ _) rfl with h | h <;>
        simp only at h <;> subst h <;> simp [initObjectLoop, setAttribute, ih _ hr, objectFields] <;>
        cases attrValue "visible" rest <;> rfl
    · simp [initObjectLoop, setAttribute, hlon, hlat, huser, hvis, ih _ hr, objectFields]

/-- `init_object` computes the header the element's attributes describe, unless a `visible`
attribute holds a value `set_visible` rejects. -/
theorem initObject_eq (inDeleteSection : Bool) (type : ItemType) (attrs : Attrs)
    (hv : VisibleValid attrs) :
    initObject inDeleteSection type attrs = .ok (objectHeader inDeleteSection type attrs) := by
  simp only [initObject, initObjectLoop_eq _ _ hv, objectHeader, corner]
  cases attrValue "lon" attrs <;> cases attrValue "lat" attrs <;> cases type <;> rfl

def changesetFields (attrs : Attrs) : Attrs :=
  attrs.filter fun a => !(["min_lon", "min_lat", "max_lon", "max_lat", "user"].contains a.1)

def changesetHeader (attrs : Attrs) : ObjectHeader where
  visible := true
  user := (attrValue "user" attrs).getD ""
  location := corner "min_lon" "min_lat" attrs ++ corner "max_lon" "max_lat" attrs
  fields := changesetFields attrs

theorem initChangesetLoop_eq (s : ChangesetInit) (attrs : Attrs) :
    initChangesetLoop s attrs =
      { fields := s.fields ++ changesetFields attrs
        minLon := (attrValue "min_lon" attrs).or s.minLon
        minLat := (attrValue "min_lat" attrs).or s.minLat
        maxLon := (attrValue "max_lon" attrs).or s.maxLon
        maxLat := (attrValue "max_lat" attrs).or s.maxLat
        user := (attrValue "user" attrs).getD s.user } := by
  induction attrs generalizing s with
  | nil => simp [initChangesetLoop, changesetFields]
  | cons a rest ih =>
    obtain ⟨n, v⟩ := a
    by_cases h1 : n = "min_lon"
    · subst h1; simp [initChangesetLoop, ih, changesetFields]; cases attrValue "min_lon" rest <;> rfl
    by_cases h2 : n = "min_lat"
    · subst h2; simp [initChangesetLoop, ih, changesetFields]; cases attrValue "min_lat" rest <;> rfl
    by_cases h3 : n = "max_lon"
    · subst h3; simp [initChangesetLoop, ih, changesetFields]; cases attrValue "max_lon" rest <;> rfl
    by_cases h4 : n = "max_lat"
    · subst h4; simp [initChangesetLoop, ih, changesetFields]; cases attrValue "max_lat" rest <;> rfl
    by_cases h5 : n = "user"
    · subst h5; simp [initChangesetLoop, ih, changesetFields]; cases attrValue "user" rest <;> rfl
    · simp [initChangesetLoop, h1, h2, h3, h4, h5, ih, changesetFields]

theorem initChangeset_eq (attrs : Attrs) : initChangeset attrs = changesetHeader attrs := by
  simp only [initChangeset, initChangesetLoop_eq, changesetHeader, corner]
  cases attrValue "min_lon" attrs <;> cases attrValue "min_lat" attrs <;>
    cases attrValue "max_lon" attrs <;> cases attrValue "max_lat" attrs <;> rfl

/-! ## Sub-list entries -/

/-- The key and value `check_tag` reads from a `tag` element. -/
def tagEntry (attrs : Attrs) : Entry :=
  .tag ((attrValue "k" attrs).getD "") ((attrValue "v" attrs).getD "")

/-- The refs an `nd` element adds: one `add_node_ref` per `ref` attribute. -/
def ndEntries (attrs : Attrs) : List Entry :=
  attrs.filterMap fun a => if a.1 = "ref" then some (.nodeRef a.2) else none

/-- The member a `member` element adds; the type is the first character of its value. -/
def memberEntry (attrs : Attrs) : Entry :=
  .member (((attrValue "type" attrs).map fun v => v.toList.headD '\x00').getD 'x')
    ((attrValue "ref" attrs).getD "0") ((attrValue "role" attrs).getD "")

end OsrmNutiteq.Osmium

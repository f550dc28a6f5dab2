import LatexOrigins.Origin.Codec
import LatexOrigins.Proofs.Document.Context
import LatexOrigins.Proofs.Document.Stability
import LatexOrigins.Proofs.Results

/-!
# Origins are written and read back

What is written of an origin is read back as the same origin. More than that can be read: an
object with the members of a structure in any order and among others, where the position in
the plain text may be absent or null. From each such form of two pointers an origin comes
exactly if both lie in one file and enclose something there and in the flat source, and the
first of these that fails is the error. So an origin that was read is as good as one that was
traced.
-/

namespace LatexOrigins

namespace Json

/-- The values under a key, in the order of the members. -/
def under (members : List (String × Json)) (key : String) : List Json :=
  (members.filter (·.1 = key)).map (·.2)

variable {members : List (String × Json)} {key : String} {value : Json}

theorem member?_eq_head? (members : List (String × Json)) (key : String) :
    member? members key = (under members key).head? := by
  rw [member?, under, List.head?_map, List.head?_filter]

/-- A number is written as it is, if it fits. -/
inductive Number (n : Nat) : Json → Prop where
  | nat (hfits : n < natLimit) : Number n (.nat n)

theorem Number.toNat? {n : Nat} (h : Number n value) : value.toNat? = some n := by
  cases h with
  | nat hfits => exact if_pos hfits

end Json

open Json (under)

/-! ## Written forms -/

/-- The forms of a position: an object that holds its three numbers once each. -/
inductive Position.Written (p : Position) : Json → Prop where
  | object {members : List (String × Json)} {offset line column : Json}
      (hoffset : under members "offset" = [offset]) (hline : under members "line" = [line])
      (hcolumn : under members "column" = [column]) (offset_eq : Json.Number p.offset offset)
      (line_eq : Json.Number p.line line) (column_eq : Json.Number p.column column) :
      Written p (.object members)

inductive FilePlace.Written (p : FilePlace) : Json → Prop where
  | object {members : List (String × Json)} {file position : Json}
      (hpath : under members "path" = [.string p.path]) (hfile : under members "file_id" = [file])
      (hposition : under members "position" = [position]) (file_eq : Json.Number p.file file)
      (position_eq : p.position.Written position) : Written p (.object members)

/-- What may stand under the key of a position that need not be there. -/
inductive Position.WrittenIfAny : Option Position → List Json → Prop where
  | absent : WrittenIfAny none []
  | null : WrittenIfAny none [.null]
  | position {p : Position} {value : Json} (h : p.Written value) : WrittenIfAny (some p) [value]

inductive Pointer.Written (p : Pointer) : Json → Prop where
  | object {members : List (String × Json)} {place source : Json}
      (hplace : under members "file" = [place]) (hsource : under members "source" = [source])
      (place_eq : p.place.Written place) (source_eq : p.source.Written source)
      (text_eq : Position.WrittenIfAny p.text (under members "text")) : Written p (.object members)

/-- The forms of two pointers as the ends of an origin. -/
inductive Origin.WrittenPair (start stop : Pointer) : Json → Prop where
  | object {members : List (String × Json)} {first last : Json}
      (hbegin : under members "begin" = [first]) (hend : under members "end" = [last])
      (start_eq : start.Written first) (stop_eq : stop.Written last) :
      WrittenPair start stop (.object members)

/-! ## Reading -/

theorem Position.Written.ofJson? {p : Position} {value : Json} (h : p.Written value) :
    Position.ofJson? value = some p := by
  cases h with
  | object hoffset hline hcolumn offset_eq line_eq column_eq =>
      simp only [Position.ofJson?, Json.fields?, List.map_cons, List.map_nil,
        Json.member?_eq_head?, hoffset, hline, hcolumn, List.head?_cons, offset_eq.toNat?,
        line_eq.toNat?, column_eq.toNat?]
      rfl

theorem FilePlace.Written.ofJson? {p : FilePlace} {value : Json} (h : p.Written value) :
    FilePlace.ofJson? value = some p := by
  cases h with
  | object hpath hfile hposition file_eq position_eq =>
      simp only [FilePlace.ofJson?, Json.fields?, List.map_cons, List.map_nil,
        Json.member?_eq_head?, hpath, hfile, hposition, List.head?_cons, Json.toString?,
        file_eq.toNat?, position_eq.ofJson?]
      rfl

theorem Position.WrittenIfAny.optional? {text : Option Position} {values : List Json}
    (h : Position.WrittenIfAny text values) :
    Json.optional? Position.ofJson? values.head? = some text := by
  cases h with
  | absent | null => rfl
  | position h =>
      have hread := h.ofJson?
      cases h with
      | object =>
          rw [List.head?_cons, Json.optional?, hread, Option.map_some]
          exact nofun

theorem Pointer.Written.ofJson? {p : Pointer} {value : Json} (h : p.Written value) :
    Pointer.ofJson? value = some p := by
  cases h with
  | object hplace hsource place_eq source_eq text_eq =>
      simp only [Pointer.ofJson?, Json.fields?, List.map_cons, List.map_nil,
        Json.member?_eq_head?, hplace, hsource, List.head?_cons, place_eq.ofJson?,
        source_eq.ofJson?, text_eq.optional?]
      rfl

theorem Origin.WrittenPair.ofJson {start stop : Pointer} {value : Json}
    (h : Origin.WrittenPair start stop value) :
    Origin.ofJson value = (Origin.ofPointers start stop).mapError .invalid := by
  cases h with
  | object hbegin hend start_eq stop_eq =>
      simp only [Origin.ofJson, Json.fields?, List.map_cons, List.map_nil, Json.member?_eq_head?,
        hbegin, hend, List.head?_cons, start_eq.ofJson?, stop_eq.ofJson?]
      cases Origin.ofPointers start stop with
      | error | ok => rfl

/-! ## Writing -/

/-- The numbers of a position fit into what can be read. -/
structure Position.Fits (p : Position) : Prop where
  offset : p.offset < Json.natLimit
  line : p.line < Json.natLimit
  column : p.column < Json.natLimit

structure Pointer.Fits (p : Pointer) : Prop where
  file : p.place.file < Json.natLimit
  position : p.place.position.Fits
  source : p.source.Fits
  text : ∀ text ∈ p.text, text.Fits

theorem Position.Fits.written {p : Position} (h : p.Fits) : p.Written p.toJson :=
  .object (by simp [under]) (by simp [under]) (by simp [under]) (.nat h.offset) (.nat h.line)
    (.nat h.column)

theorem Pointer.Fits.written {p : Pointer} (h : p.Fits) : p.Written p.toJson := by
  have hplace : p.place.Written p.place.toJson :=
    .object (by simp [under]) (by simp [under]) (by simp [under]) (.nat h.file) h.position.written
  have htext : Position.WrittenIfAny p.text [p.text.elim .null Position.toJson] := by
    cases hsome : p.text with
    | none => exact .null
    | some text => exact .position (h.text text hsome).written
  exact .object (by simp [under]) (by simp [under]) hplace h.source.written (by simpa [under])

theorem Pointer.Fits.writtenPair {start stop : Pointer} (hstart : start.Fits) (hstop : stop.Fits) :
    Origin.WrittenPair start stop (.object [("begin", start.toJson), ("end", stop.toJson)]) :=
  .object (by simp [under]) (by simp [under]) hstart.written hstop.written

/-! ## The ends of an origin -/

/-- Two pointers are the ends of an origin. -/
structure Pointer.Encloses (start stop : Pointer) : Prop where
  same_path : start.place.path = stop.place.path
  place_lt : start.place.position.offset < stop.place.position.offset
  source_lt : start.source.offset < stop.source.offset

/-- Why two pointers are not the ends of an origin. A mismatch of the files counts before an
empty range in the file, and that before an empty range in the flat source. -/
inductive Pointer.Apart (start stop : Pointer) : Origin.Error → Prop where
  | fileMismatch (hpath : start.place.path ≠ stop.place.path) :
      Apart start stop (.fileMismatch start.place.path stop.place.path)
  | emptyInFile (hpath : start.place.path = stop.place.path)
      (hplace : stop.place.position.offset ≤ start.place.position.offset) :
      Apart start stop (.emptyOrigin start.place.path start.place.position.offset
        stop.place.position.offset)
  | emptyInSource (hpath : start.place.path = stop.place.path)
      (hplace : start.place.position.offset < stop.place.position.offset)
      (hsource : stop.source.offset ≤ start.source.offset) :
      Apart start stop (.emptyOrigin start.place.path start.source.offset stop.source.offset)

variable {start stop : Pointer} {o : Origin} {value : Json}

theorem Pointer.Apart.ofPointers_eq {e : Origin.Error} (h : start.Apart stop e) :
    Origin.ofPointers start stop = .error e := by
  cases h with
  | fileMismatch hpath => rw [Origin.ofPointers, dif_neg hpath]
  | emptyInFile hpath hplace =>
      rw [Origin.ofPointers, dif_pos hpath, dif_neg (Nat.not_lt.2 hplace)]
  | emptyInSource hpath hplace hsource =>
      rw [Origin.ofPointers, dif_pos hpath, dif_pos hplace, dif_neg (Nat.not_lt.2 hsource)]

theorem Pointer.apart_or_encloses (start stop : Pointer) :
    (∃ e, start.Apart stop e) ∨ start.Encloses stop := by
  by_cases hpath : start.place.path = stop.place.path
  · by_cases hplace : start.place.position.offset < stop.place.position.offset
    · by_cases hsource : start.source.offset < stop.source.offset
      · exact Or.inr ⟨hpath, hplace, hsource⟩
      · exact Or.inl ⟨_, .emptyInSource hpath hplace (Nat.not_lt.1 hsource)⟩
    · exact Or.inl ⟨_, .emptyInFile hpath (Nat.not_lt.1 hplace)⟩
  · exact Or.inl ⟨_, .fileMismatch hpath⟩

theorem Origin.ofPointers_iff (start stop : Pointer) :
    (∀ e, Origin.ofPointers start stop = .error e ↔ start.Apart stop e) ∧
      ((∃ o, Origin.ofPointers start stop = .ok o) ↔ start.Encloses stop) :=
  Results.outcome_iff (fun _ h => h.ofPointers_eq)
    (fun h => ⟨_, Origin.ofPointers_eq_ok h.same_path h.place_lt h.source_lt⟩)
    (Pointer.apart_or_encloses start stop)

theorem Origin.ofPointers_self (o : Origin) : Origin.ofPointers o.start o.stop = .ok o :=
  Origin.ofPointers_eq_ok o.same_path o.place_lt o.source_lt

/-- An origin that was read has the ends that the value holds. -/
theorem Origin.ofJson_eq_ok (h : Origin.ofJson value = .ok o) :
    ∃ first last, value.fields? ["begin", "end"] = some [some first, some last] ∧
      Pointer.ofJson? first = some o.start ∧ Pointer.ofJson? last = some o.stop := by
  unfold Origin.ofJson at h
  split at h
  · next first last hfields =>
    split at h
    · next start stop hstart hstop =>
      split at h
      · next found hfound =>
        obtain rfl := Except.ok.inj h
        obtain ⟨rfl, rfl⟩ := Document.eq_of_ofPointers hfound
        exact ⟨first, last, hfields, hstart, hstop⟩
      · cases h
    · cases h
  · cases h

/-- Every origin is read back as it is. Whatever form two pointers are written in, an origin is
read exactly if they enclose something in one file and in the flat source; it has these ends,
and otherwise the first cause is the error. What is read of any value has the ends that the
value holds and can be relied on like an origin that was traced: they enclose something, and
the origin has a context in every document that holds its file to the end of its range. -/
theorem Origin.origins_coded :
    (∀ o : Origin, o.start.Fits → o.stop.Fits →
      WrittenPair o.start o.stop o.toJson ∧ ofJson o.toJson = .ok o) ∧
    (∀ start stop value, WrittenPair start stop value →
      ((∃ o, ofJson value = .ok o) ↔ start.Encloses stop) ∧
      (∀ e, ofJson value = .error e ↔ ∃ cause, e = .invalid cause ∧ start.Apart stop cause) ∧
      ∀ o, ofJson value = .ok o → o.start = start ∧ o.stop = stop) ∧
    ∀ value o, ofJson value = .ok o →
      (∃ first last, value.fields? ["begin", "end"] = some [some first, some last] ∧
        Pointer.ofJson? first = some o.start ∧ Pointer.ofJson? last = some o.stop) ∧
      o.start.Encloses o.stop ∧
      ∀ (d : Document) count, d.context? o count = none ↔
        o.file ∉ d.files ∨
          ∃ file, d.source.fileAt? o.file = some file ∧ file.lined.size < o.fileSpan.2 := by
  refine ⟨fun o hstart hstop => ?_, fun start stop value hpair => ?_, fun value o hread => ?_⟩
  · have hpair : WrittenPair o.start o.stop o.toJson := hstart.writtenPair hstop
    refine ⟨hpair, ?_⟩
    rw [hpair.ofJson, ofPointers_self, Results.mapError_ok]
  · obtain ⟨hrejects, haccepts⟩ := ofPointers_iff start stop
    rw [hpair.ofJson]
    refine ⟨?_, fun e => ?_, fun o hread => ?_⟩
    · simp only [Results.mapError_eq_ok]
      exact haccepts
    · simp only [Results.mapError_eq_error, hrejects, eq_comm (a := e), and_comm]
    · exact Document.eq_of_ofPointers (Results.mapError_eq_ok.1 hread)
  · exact ⟨ofJson_eq_ok hread, ⟨o.same_path, o.place_lt, o.source_lt⟩,
      fun d count => Document.context?_eq_none_iff o count⟩

end LatexOrigins

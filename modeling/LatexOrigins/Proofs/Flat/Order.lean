import LatexOrigins.Proofs.Flat.Faithful
import LatexOrigins.Proofs.Flat.Scan
import LatexOrigins.Proofs.Flat.Visit

/-!
# The order within a visit

A visit emits the bytes of its file in their order and none of them twice, as long as
no step runs over the end of the argument that it stands in. The groups of a command
and the argument of `\verb` are looked for in the whole file, though, and may end
behind the argument: the scan then comes to the same bytes again.
-/

namespace LatexOrigins.Flat

/-- Offsets that rise and lie in a range. -/
structure Rising (low high : Nat) (l : List Nat) : Prop where
  inside : ∀ x ∈ l, low ≤ x ∧ x < high
  ordered : l.Pairwise (· < ·)

namespace Rising

variable {low mid high : Nat} {l others : List Nat}

theorem nil : Rising low high [] := ⟨by simp, List.Pairwise.nil⟩

theorem range' (start count : Nat) : Rising start (start + count) (List.range' start count) where
  inside := by
    intro x hx
    exact List.mem_range'_1.1 hx
  ordered := List.pairwise_lt_range'

theorem mono {lower higher : Nat} (h : Rising low high l) (hlow : lower ≤ low)
    (hhigh : high ≤ higher) : Rising lower higher l where
  inside := by
    intro x hx
    have hinside := h.inside x hx
    omega
  ordered := h.ordered

theorem append (h : Rising low mid l) (hothers : Rising mid high others) (hlow : low ≤ mid)
    (hhigh : mid ≤ high) : Rising low high (l ++ others) where
  inside := by
    intro x hx
    rcases List.mem_append.1 hx with hx | hx
    · exact (h.mono (Nat.le_refl _) hhigh).inside x hx
    · exact (hothers.mono hlow (Nat.le_refl _)).inside x hx
  ordered := by
    refine List.pairwise_append.2 ⟨h.ordered, hothers.ordered, fun x hx y hy => ?_⟩
    exact Nat.lt_of_lt_of_le (h.inside x hx).2 (hothers.inside y hy).1

end Rising

/-! ## The offsets of a scan -/

/-- The offsets that the scan of a range keeps, those included that are taken back. -/
def offsetsBetween (options : Options) (bytes : List UInt8) (offset limit : Nat) : List Nat :=
  (movesBetween options bytes offset limit).flatMap offsetsOf

/-- No step runs over the delimiter that ends the range in which it is made. -/
def StepsContained (options : Options) (content : String) : Prop :=
  ∀ offset limit, Scanned options (Text.bytes content) offset limit → offset < limit →
    offset + (stepAt options (Text.bytes content) offset limit).width ≤ limit + 1

variable {options : Options} {content : String} {offset limit : Nat}

theorem offsetsBetween_of_le {bytes : List UInt8} (h : limit ≤ offset) :
    offsetsBetween options bytes offset limit = [] := by
  rw [offsetsBetween, movesBetween_of_le h, List.flatMap_nil]

theorem offsetsBetween_of_lt (options : Options) {bytes : List UInt8} (h : offset < limit)
    (hle : limit ≤ bytes.length) : offsetsBetween options bytes offset limit =
      ((stepAt options bytes offset limit).movesAt offset).flatMap offsetsOf ++
        ((stepAt options bytes offset limit).kept.elim [] fun bounds =>
          offsetsBetween options bytes (offset + bounds.1) (offset + bounds.2)) ++
        offsetsBetween options bytes (offset + (stepAt options bytes offset limit).width) limit := by
  rw [offsetsBetween, movesBetween_of_lt h hle, List.flatMap_append, List.flatMap_append]
  cases (stepAt options bytes offset limit).kept with
  | none | some => rfl

theorem settle_sublist (moves : List Move) :
    ((settle moves).flatMap offsetsOf).Sublist (moves.flatMap offsetsOf) := by
  induction moves with
  | nil => exact List.Sublist.refl _
  | cons move rest ih =>
      cases move with
      | keep start stop =>
          have hless : stop - takenBack rest - start ≤ stop - start := by omega
          exact (List.range'_sublist_right.2 hless).append ih
      | comment | follow => exact ih

theorem emitted_sublist (options : Options) (content : String) :
    (emitted options content).Sublist
      (offsetsBetween options (Text.bytes content) 0 (Text.bytes content).length) :=
  settle_sublist _

theorem rising_movesAt (offset : Nat) (s : Step) :
    Rising offset (offset + s.width) ((s.movesAt offset).flatMap offsetsOf) := by
  cases s with
  | keep width =>
      have hown : (Step.movesAt offset (.keep width)).flatMap offsetsOf =
          List.range' offset width := by
        simp [Step.movesAt, offsetsOf]
      rw [hown]
      exact Rising.range' offset width
  | comment | follow | unwrap => exact Rising.nil

theorem movesAt_of_kept {s : Step} {bounds : Nat × Nat} (h : s.kept = some bounds) :
    s.movesAt offset = [] := by
  cases s with
  | unwrap => rfl
  | keep | comment | follow => cases h

/-- What a step emits before the scan goes on are bytes that it passes over. -/
theorem Found.rising {before l : List UInt8} {room : Nat} {s : Step}
    (h : Found options before l room s) (offset : Nat) {inner : Nat × Nat → List Nat}
    (hinner : ∀ bounds, s.kept = some bounds →
      Rising (offset + bounds.1) (offset + bounds.2 + 1) (inner bounds)) :
    Rising offset (offset + s.width)
      ((s.movesAt offset).flatMap offsetsOf ++ s.kept.elim [] inner) := by
  cases hkept : s.kept with
  | none =>
      rw [Option.elim_none, List.append_nil]
      exact rising_movesAt offset s
  | some bounds =>
      rw [movesAt_of_kept hkept, Option.elim_some, List.flatMap_nil, List.nil_append]
      have hstop := (h.kept hkept).stop_lt
      exact (hinner bounds hkept).mono (Nat.le_add_right _ _) (by omega)

theorem Scanned.rising (hcontained : StepsContained options content)
    (h : Scanned options (Text.bytes content) offset limit) :
    Rising offset (limit + 1) (offsetsBetween options (Text.bytes content) offset limit) := by
  have hencoded := Text.encoded_bytes content
  refine Scanned.induct
    (motive := fun o l => Rising o (l + 1) (offsetsBetween options (Text.bytes content) o l))
    hencoded (fun _ _ hle => offsetsBetween_of_le hle ▸ Rising.nil) ?_ h
  intro offset limit h hlt ihinner ihnext
  rw [offsetsBetween_of_lt options hlt (h.limit_le hencoded)]
  exact ((h.found hencoded hlt).rising offset ihinner).append ihnext (Nat.le_add_right _ _)
    (hcontained offset limit h hlt)

/-- Places that hold the start of a scan, and with each place those that the step there
leads to. -/
structure Covers (options : Options) (bytes : List UInt8) (p : List (Nat × Nat)) : Prop where
  start : (0, bytes.length) ∈ p
  steps : ∀ place ∈ p, place.1 < place.2 →
    (place.1 + (stepAt options bytes place.1 place.2).width, place.2) ∈ p ∧
      ∀ bounds ∈ (stepAt options bytes place.1 place.2).kept,
        (place.1 + bounds.1, place.1 + bounds.2) ∈ p

theorem Covers.mem {bytes : List UInt8} {p : List (Nat × Nat)} (hp : Covers options bytes p)
    (h : Scanned options bytes offset limit) : (offset, limit) ∈ p := by
  induction h with
  | start => exact hp.start
  | next _ hlt ih => exact (hp.steps _ ih hlt).1
  | inner _ hlt hkept ih => exact (hp.steps _ ih hlt).2 _ hkept

theorem StepsContained.of_places {p : List (Nat × Nat)}
    (hp : Covers options (Text.bytes content) p)
    (hcontained : ∀ place ∈ p, place.1 < place.2 →
      place.1 + (stepAt options (Text.bytes content) place.1 place.2).width ≤ place.2 + 1) :
    StepsContained options content :=
  fun _ _ h hlt => hcontained _ (hp.mem h) hlt

/-! ## Visits -/

/-- The bytes of a file that a visit of it adds to a flat source are in the order of the
file, and none is added twice, if no step runs over the argument that it stands in. -/
theorem expandFile_pairwise {files : FileSet} {limit : Nat} {opened : List String}
    {flat flat' : Flat} {path : String} (hflat : Aligned flat)
    (h : expandFile files options limit opened flat path = .ok flat')
    (hread : files.read path = .ok content) (hcontained : StepsContained options content) :
    ∃ block, flat'.entries = flat.entries ++ block ∧
      (offsetsIn (flat.enter path content).2 block).Pairwise (· < ·) := by
  obtain ⟨block, hblock, hoffsets⟩ := expandFile_contributes hflat h hread
  refine ⟨block, hblock.entries, ?_⟩
  rw [hoffsets]
  exact (Scanned.start.rising hcontained).ordered.sublist (emitted_sublist options content)

/-- The main file of the nested files. -/
def nestedMain : String := "a\n  % x\n\\added\x7bb\\input\x7bs\x7d\x7d c"

theorem expandFile_nestedFiles :
    expandFile nestedFiles.toFileSet .standard 2 [] empty "/main.tex" = .ok nestedFlat := by
  decide +kernel

theorem read_nestedFiles : nestedFiles.toFileSet.read "/main.tex" = .ok nestedMain := by
  decide +kernel

def nestedPlaces : List (Nat × Nat) :=
  [(0, 28), (4, 28), (8, 28), (15, 25), (16, 25), (25, 25), (26, 28), (28, 28)]

theorem stepsContained_nestedMain : StepsContained .standard nestedMain :=
  StepsContained.of_places (p := nestedPlaces) ⟨by decide +kernel, by decide +kernel⟩
    (by decide +kernel)

theorem pairwise_nestedFlat :
    expandFile nestedFiles.toFileSet .standard 2 [] empty "/main.tex" = .ok nestedFlat ∧
      StepsContained .standard nestedMain ∧ ∃ block,
        nestedFlat.entries = empty.entries ++ block ∧
          (offsetsIn (empty.enter "/main.tex" nestedMain).2 block).Pairwise (· < ·) :=
  ⟨expandFile_nestedFiles, stepsContained_nestedMain,
    expandFile_pairwise aligned_empty expandFile_nestedFiles read_nestedFiles
      stepsContained_nestedMain⟩

/-- The first brace that closes stands in the argument of `\verb`. -/
def overrunMain : String := "\\added\x7b\\verb|\x7dx|\x7dy"

def overrunFiles : MemoryFiles := .ofList "/" [("main.tex", overrunMain)]

def overrunFlat : Flat where
  text := "\\verb|\x7dx|x|\x7dy"
  files := #[⟨"/main.tex", overrunMain⟩]
  origins := (provenances 0 7 16 ++ provenances 0 14 18).toArray

/-- A `\verb` that runs over the argument it stands in is emitted twice in part. -/
theorem not_pairwise_overrunFlat :
    expandFile overrunFiles.toFileSet .standard 1 [] empty "/main.tex" = .ok overrunFlat ∧
      ¬ ∃ block, overrunFlat.entries = empty.entries ++ block ∧
        (offsetsIn (empty.enter "/main.tex" overrunMain).2 block).Pairwise (· < ·) := by
  refine ⟨by decide +kernel, ?_⟩
  rintro ⟨block, hblock, hordered⟩
  obtain rfl : overrunFlat.entries = block := hblock
  revert hordered
  decide +kernel

end LatexOrigins.Flat

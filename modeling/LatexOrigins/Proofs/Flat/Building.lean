import LatexOrigins.Flat.Expand
import LatexOrigins.Proofs.Results

/-!
# How flat sources grow

What each step of flattening does to the bytes of a flat source, to its table
and to its files, and the rule by which a property that every step keeps holds
of a whole expansion. Files are only ever added behind those that are there, so
the number of a file stays its number.
-/

namespace LatexOrigins.Flat

abbrev textBytes (flat : Flat) : List UInt8 := Text.bytes flat.text

abbrev entries (flat : Flat) : List (Option Provenance) := flat.origins.toList

def cutOut (content : String) (start stop : Nat) : List UInt8 :=
  ((Text.bytes content).drop start).take (stop - start)

theorem getElem?_cutOut {content : String} {start stop i : Nat} (h : i < stop - start) :
    (cutOut content start stop)[i]? = (Text.bytes content)[start + i]? := by
  rw [cutOut, List.getElem?_take_of_lt h, List.getElem?_drop]

theorem getElem?_provenances {file start stop i : Nat} (h : i < stop - start) :
    (provenances file start stop)[i]? = some (some ⟨file, start + i⟩) := by
  rw [provenances, List.getElem?_map, List.getElem?_range' h, Nat.one_mul]
  rfl

@[simp] theorem length_provenances (file start stop : Nat) :
    (provenances file start stop).length = stop - start := by
  simp [provenances]

/-! ## Single operations -/

theorem keep_eq_ok {flat flat' : Flat} {file start stop : Nat} {content : String}
    (h : flat.keep file content start stop = .ok flat') :
    flat'.files = flat.files ∧
      flat'.textBytes = flat.textBytes ++ cutOut content start stop ∧
      flat'.entries = flat.entries ++ provenances file start stop := by
  unfold keep at h
  split at h
  · split at h
    · next piece hpiece =>
      obtain rfl := Except.ok.inj h
      refine ⟨rfl, ?_, ?_⟩
      · rw [textBytes, Text.bytes_append, Text.bytes_of_slice? hpiece, cutOut]
      · simp [entries]
    · simp at h
  · next hle =>
    obtain rfl := Except.ok.inj h
    have hzero : stop - start = 0 := by omega
    simp [cutOut, provenances, hzero]

theorem isBoundary_of_keep_eq_ok {flat flat' : Flat} {file start stop : Nat} {content : String}
    (h : flat.keep file content start stop = .ok flat') (hlt : start < stop) :
    Text.isBoundary content start = true ∧ Text.isBoundary content stop = true := by
  rw [keep, if_pos hlt] at h
  split at h
  · next piece hpiece =>
    have hsome : (Text.slice? content start stop).isSome := by simp [hpiece]
    have hcuts := Text.slice?_isSome_iff.1 hsome
    exact ⟨hcuts.1, hcuts.2.1⟩
  · simp at h

theorem le_size_of_keep_eq_ok {flat flat' : Flat} {file start stop : Nat} {content : String}
    (h : flat.keep file content start stop = .ok flat') (hlt : start < stop) :
    stop ≤ content.utf8ByteSize :=
  Text.le_size_of_isBoundary (isBoundary_of_keep_eq_ok h hlt).2

theorem retract_eq_ok {flat flat' : Flat} {count : Nat} (h : flat.retract count = .ok flat') :
    count ≤ flat.textBytes.length ∧ flat'.files = flat.files ∧
      flat'.textBytes = flat.textBytes.take (flat.textBytes.length - count) ∧
      flat'.entries = flat.entries.take (flat.textBytes.length - count) := by
  unfold retract at h
  split at h
  · next hle =>
    simp only at h
    split at h
    · next text htext =>
      obtain rfl := Except.ok.inj h
      refine ⟨hle, rfl, ?_, ?_⟩
      · simpa using Text.bytes_of_slice? htext
      · simp [entries]
    · simp at h
  · simp at h

theorem isBoundary_of_retract_eq_ok {flat flat' : Flat} {count : Nat}
    (h : flat.retract count = .ok flat') :
    Text.isBoundary flat.text (flat.textBytes.length - count) = true := by
  unfold retract at h
  split at h
  · simp only at h
    split at h
    · next text htext =>
      have hsome : (Text.slice? flat.text 0 (flat.text.utf8ByteSize - count)).isSome := by
        simp [htext]
      exact (Text.slice?_isSome_iff.1 hsome).2.1
    · simp at h
  · simp at h

theorem enter_spec (flat : Flat) (path content : String) :
    flat.files.toList <+: (flat.enter path content).1.files.toList ∧
      (flat.enter path content).1.text = flat.text ∧
      (flat.enter path content).1.origins = flat.origins ∧
      (∃ copy, (flat.enter path content).1.files[(flat.enter path content).2]? = some copy ∧
        copy.path = path) ∧
      ∀ copy ∈ (flat.enter path content).1.files, copy ∈ flat.files ∨ copy = ⟨path, content⟩ := by
  unfold enter
  split
  · next id hid =>
    obtain ⟨hlt, hpath, -⟩ := Array.findIdx?_eq_some_iff_getElem.1 hid
    refine ⟨List.prefix_rfl, rfl, rfl, ⟨flat.files[id], ?_, by simpa using hpath⟩, ?_⟩
    · simp [hlt]
    · exact fun copy hcopy => Or.inl hcopy
  · refine ⟨?_, rfl, rfl, ⟨⟨path, content⟩, by simp [addFile], rfl⟩, ?_⟩
    · simp [addFile]
    · intro copy hcopy
      simpa [addFile] using hcopy

theorem enter_empty (path content : String) :
    empty.enter path content = (empty.addFile path content, 0) := by
  simp [enter, idOf?, empty]

theorem getElem?_files_of_grown {flat flat' : Flat} {id : Nat} {copy : FileCopy}
    (hgrown : flat.files.toList <+: flat'.files.toList) (h : flat.files[id]? = some copy) :
    flat'.files[id]? = some copy := by
  obtain ⟨added, hadded⟩ := hgrown
  rw [← Array.getElem?_toList] at h ⊢
  rw [← hadded, List.getElem?_append_left (List.getElem?_eq_some_iff.1 h).1, h]

/-! ## Whole expansions -/

/-- What an expansion that succeeds has done: the file was not open, it could be
read, and its moves were performed one after the other. -/
theorem expandFile_eq_ok {files : FileSet} {options : Options} {limit : Nat}
    {opened : List String} {flat flat' : Flat} {path : String}
    (h : expandFile files options limit opened flat path = .ok flat') :
    path ∉ opened ∧ ∃ content depth, limit = depth + 1 ∧ files.read path = .ok content ∧
      (moves options content).foldlM
          (perform files (expandFile files options depth (path :: opened)) path
            (flat.enter path content).2 content)
          (flat.enter path content).1 = .ok flat' := by
  unfold expandFile at h
  split at h
  · simp at h
  · next hopen =>
    obtain ⟨content, hread, h⟩ := Results.bind_eq_ok.1 h
    cases limit with
    | zero => simp at h
    | succ depth => exact ⟨by simpa using hopen, content, depth, rfl, hread, h⟩

theorem expandFile_zero_ne_ok {files : FileSet} {options : Options} {opened : List String}
    {flat flat' : Flat} {path : String} :
    expandFile files options 0 opened flat path ≠ .ok flat' := by
  intro h
  obtain ⟨-, _, depth, hdepth, -⟩ := expandFile_eq_ok h
  exact absurd hdepth (Nat.succ_ne_zero depth).symm

theorem perform_follow_eq_ok {files : FileSet} {enter : Flat → String → Except LoadError Flat}
    {path content : String} {id start stop : Nat} {flat flat' : Flat}
    (h : perform files enter path id content flat (.follow start stop) = .ok flat') :
    ∃ name target, Text.slice? content start stop = some name ∧
      findFile files name (some path) = .ok target ∧ enter flat target = .ok flat' := by
  simp only [perform] at h
  split at h
  · simp at h
  · next name hname =>
    obtain ⟨target, htarget, h⟩ := Results.bind_eq_ok.1 h
    exact ⟨name, target, hname, htarget, h⟩

/-! ## Files are only added -/

theorem perform_grown {files : FileSet} {enter : Flat → String → Except LoadError Flat}
    {path content : String} {id : Nat} {flat flat' : Flat} {move : Move}
    (henter : ∀ {inner result other}, enter inner other = .ok result →
      inner.files.toList <+: result.files.toList)
    (h : perform files enter path id content flat move = .ok flat') :
    flat.files.toList <+: flat'.files.toList := by
  cases move with
  | keep start stop =>
      have hkeep := Results.mapError_eq_ok.1 h
      exact (keep_eq_ok hkeep).1 ▸ List.prefix_rfl
  | comment start indentation =>
      cases indentation with
      | none =>
          obtain rfl := Except.ok.inj h
          exact List.prefix_rfl
      | some count =>
          have hretract := Results.mapError_eq_ok.1 h
          exact (retract_eq_ok hretract).2.1 ▸ List.prefix_rfl
  | follow start stop =>
      obtain ⟨_, target, -, -, htarget⟩ := perform_follow_eq_ok h
      exact henter htarget

theorem foldlM_grown {files : FileSet} {enter : Flat → String → Except LoadError Flat}
    {path content : String} {id : Nat} {flat flat' : Flat} {moves : List Move}
    (henter : ∀ {inner result other}, enter inner other = .ok result →
      inner.files.toList <+: result.files.toList)
    (h : moves.foldlM (perform files enter path id content) flat = .ok flat') :
    flat.files.toList <+: flat'.files.toList :=
  Results.foldlM_invariant (fun s => flat.files.toList <+: s.files.toList)
    (fun _ _ _ _ hs hperform => hs.trans (perform_grown henter hperform)) List.prefix_rfl h

theorem expandFile_grown {files : FileSet} {options : Options} {limit : Nat}
    {opened : List String} {flat flat' : Flat} {path : String}
    (h : expandFile files options limit opened flat path = .ok flat') :
    flat.files.toList <+: flat'.files.toList := by
  induction limit generalizing opened flat flat' path with
  | zero => exact absurd h expandFile_zero_ne_ok
  | succ limit ih =>
      obtain ⟨-, content, depth, hdepth, -, h⟩ := expandFile_eq_ok h
      obtain rfl : limit = depth := by omega
      exact (enter_spec flat path content).1.trans (foldlM_grown ih h)

/-! ## What every operation keeps -/

/-- A property of flat sources that every operation of flattening keeps. -/
structure Preserved (files : FileSet) (Inv : Flat → Prop) : Prop where
  enter : ∀ {flat path content}, files.read path = .ok content → Inv flat →
    Inv (flat.enter path content).1
  keep : ∀ {flat flat' id path content start stop}, files.read path = .ok content →
    (∃ copy, flat.files[id]? = some copy ∧ copy.path = path) → Inv flat →
    flat.keep id content start stop = .ok flat' → Inv flat'
  retract : ∀ {flat flat' count}, Inv flat → flat.retract count = .ok flat' → Inv flat'

theorem perform_preserves {files : FileSet} {Inv : Flat → Prop} (hInv : Preserved files Inv)
    {enter : Flat → String → Except LoadError Flat} {path content : String} {id : Nat}
    {flat flat' : Flat} {move : Move} (hread : files.read path = .ok content)
    (hid : ∃ copy, flat.files[id]? = some copy ∧ copy.path = path)
    (henter : ∀ {inner result other}, enter inner other = .ok result → Inv inner → Inv result)
    (hflat : Inv flat) (h : perform files enter path id content flat move = .ok flat') :
    Inv flat' := by
  cases move with
  | keep start stop => exact hInv.keep hread hid hflat (Results.mapError_eq_ok.1 h)
  | comment start indentation =>
      cases indentation with
      | none =>
          obtain rfl := Except.ok.inj h
          exact hflat
      | some count => exact hInv.retract hflat (Results.mapError_eq_ok.1 h)
  | follow start stop =>
      obtain ⟨_, target, -, -, htarget⟩ := perform_follow_eq_ok h
      exact henter htarget hflat

/-- What every operation keeps, the expansion of a file keeps. -/
theorem expandFile_preserves {files : FileSet} {options : Options} {Inv : Flat → Prop}
    (hInv : Preserved files Inv) {limit : Nat} {opened : List String} {flat flat' : Flat}
    {path : String} (h : expandFile files options limit opened flat path = .ok flat')
    (hflat : Inv flat) : Inv flat' := by
  induction limit generalizing opened flat flat' path with
  | zero => exact absurd h expandFile_zero_ne_ok
  | succ limit ih =>
      obtain ⟨-, content, depth, hdepth, hread, h⟩ := expandFile_eq_ok h
      obtain rfl : limit = depth := by omega
      obtain ⟨-, -, -, ⟨copy, hcopy, hpath⟩, -⟩ := enter_spec flat path content
      have hentered := hInv.enter hread hflat
      generalize flat.enter path content = entered at h hcopy hentered
      -- The number of the file stays valid, because files are only added behind.
      have hfold := Results.foldlM_invariant
        (fun s => Inv s ∧ entered.1.files.toList <+: s.files.toList)
        (fun move _ s s' hs hperform => by
          have hnumber := getElem?_files_of_grown hs.2 hcopy
          exact ⟨perform_preserves hInv hread ⟨copy, hnumber, hpath⟩ ih hs.1 hperform,
            hs.2.trans (perform_grown expandFile_grown hperform)⟩)
        ⟨hentered, List.prefix_rfl⟩ h
      exact hfold.1

theorem expand_preserves {files : FileSet} {options : Options} {Inv : Flat → Prop}
    (hInv : Preserved files Inv) {main : String} {flat : Flat} (hempty : Inv empty)
    (h : expand files options main = .ok flat) : Inv flat := by
  obtain ⟨path, -, h⟩ := Results.bind_eq_ok.1 h
  exact expandFile_preserves hInv h hempty

end LatexOrigins.Flat

import LatexOrigins.Proofs.Flat.Settled

/-!
# What one visit contributes

Expanding a file appends a block to the table of the flat source. Files that are
open are not entered again, so in this block the entries of the visited file are
those of the visit itself: they are the offsets that its own moves keep, in their
order, however the files differ that it includes.
-/

namespace LatexOrigins.Flat

/-- The offsets that a move keeps of a content. -/
def offsetsOf : Move → List Nat
  | .keep start stop => List.range' start (stop - start)
  | _ => []

/-- The offsets of a content that a visit of it emits. -/
def emitted (options : Options) (content : String) : List Nat :=
  (settle (moves options content)).flatMap offsetsOf

/-- The offsets of a file among some entries of the table. -/
def offsetsIn (id : Nat) (entries : List (Option Provenance)) : List Nat :=
  entries.filterMap (·.bind fun origin => if origin.file = id then some origin.offset else none)

theorem offsetsIn_append (id : Nat) (entries others : List (Option Provenance)) :
    offsetsIn id (entries ++ others) = offsetsIn id entries ++ offsetsIn id others :=
  List.filterMap_append

theorem offsetsIn_provenances (id start stop : Nat) :
    offsetsIn id (provenances id start stop) = List.range' start (stop - start) := by
  rw [offsetsIn, provenances, List.filterMap_map]
  refine Eq.trans ?_ List.filterMap_some
  congr 1
  funext offset
  exact if_pos rfl

/-- What an expansion adds to a flat source: a block of entries, each of a file that
is not one of those that are open. -/
structure Contribution (opened : List String) (flat flat' : Flat)
    (block : List (Option Provenance)) : Prop where
  entries : flat'.entries = flat.entries ++ block
  files : flat.files.toList <+: flat'.files.toList
  closed : ∀ entry ∈ block, ∃ origin copy, entry = some origin ∧
    flat'.files[origin.file]? = some copy ∧ copy.path ∉ opened

namespace Contribution

variable {opened : List String} {flat middle flat' : Flat}
  {block others : List (Option Provenance)}

theorem none (hentries : flat'.entries = flat.entries)
    (hfiles : flat.files.toList <+: flat'.files.toList) : Contribution opened flat flat' [] where
  entries := by rw [hentries, List.append_nil]
  files := hfiles
  closed := by
    intro entry hentry
    cases hentry

theorem append (h : Contribution opened flat middle block)
    (hothers : Contribution opened middle flat' others) :
    Contribution opened flat flat' (block ++ others) where
  entries := by rw [hothers.entries, h.entries, List.append_assoc]
  files := h.files.trans hothers.files
  closed := by
    intro entry hentry
    rcases List.mem_append.1 hentry with hentry | hentry
    · obtain ⟨origin, copy, horigin, hcopy, hpath⟩ := h.closed entry hentry
      exact ⟨origin, copy, horigin, getElem?_files_of_grown hothers.files hcopy, hpath⟩
    · exact hothers.closed entry hentry

theorem mono {path : String} (h : Contribution (path :: opened) flat flat' block) :
    Contribution opened flat flat' block :=
  { h with
    closed := by
      intro entry hentry
      obtain ⟨origin, copy, horigin, hcopy, hpath⟩ := h.closed entry hentry
      exact ⟨origin, copy, horigin, hcopy, fun hopen => hpath (List.mem_cons_of_mem _ hopen)⟩ }

theorem offsetsIn_eq_nil {id : Nat} {copy : FileCopy} (h : Contribution opened flat flat' block)
    (hcopy : flat'.files[id]? = some copy) (hopen : copy.path ∈ opened) :
    offsetsIn id block = [] := by
  refine List.filterMap_eq_nil_iff.2 fun entry hentry => ?_
  obtain ⟨origin, other, rfl, hother, hclosed⟩ := h.closed entry hentry
  have hfile : origin.file ≠ id := by
    rintro rfl
    obtain rfl := Option.some.inj (hcopy.symm.trans hother)
    exact hclosed hopen
  simp [hfile]

end Contribution

variable {files : FileSet} {options : Options} {opened : List String} {path content : String}
  {id : Nat} {flat flat' : Flat}

/-- A settled move contributes what it keeps. -/
theorem perform_contributes {enter : Flat → String → Except LoadError Flat} {move : Move}
    (henter : ∀ {inner result other}, enter inner other = .ok result → Aligned inner →
      Aligned result ∧ ∃ block, Contribution (path :: opened) inner result block)
    (hopen : path ∉ opened) (hid : ∃ copy, flat.files[id]? = some copy ∧ copy.path = path)
    (hflat : Aligned flat) (hmove : Clean content move)
    (h : perform files enter path id content flat move = .ok flat') :
    Aligned flat' ∧ ∃ block, Contribution opened flat flat' block ∧
      offsetsIn id block = offsetsOf move := by
  refine ⟨perform_aligned (fun hresult hinner => (henter hresult hinner).1) hflat h, ?_⟩
  obtain ⟨copy, hcopy, hpath⟩ := hid
  cases hmove with
  | @keep start stop hstart hstop hle =>
      have hkeep := Results.mapError_eq_ok.1 h
      obtain ⟨hfiles, -, hentries⟩ := keep_eq_ok hkeep
      have hgrown : flat.files.toList <+: flat'.files.toList := hfiles ▸ List.prefix_rfl
      refine ⟨provenances id start stop, ⟨hentries, hgrown, ?_⟩,
        offsetsIn_provenances id start stop⟩
      intro entry hentry
      obtain ⟨offset, -, rfl⟩ := List.mem_map.1 hentry
      exact ⟨⟨id, offset⟩, copy, rfl, hfiles ▸ hcopy, hpath ▸ hopen⟩
  | comment =>
      obtain rfl := Except.ok.inj h
      exact ⟨[], Contribution.none rfl List.prefix_rfl, rfl⟩
  | follow hstart hstop hle =>
      obtain ⟨_, target, -, -, htarget⟩ := perform_follow_eq_ok h
      obtain ⟨-, block, hblock⟩ := henter htarget hflat
      have hcopy' := getElem?_files_of_grown hblock.files hcopy
      exact ⟨block, hblock.mono,
        hblock.offsetsIn_eq_nil hcopy' (hpath ▸ List.mem_cons_self)⟩

theorem foldlM_contributes {enter : Flat → String → Except LoadError Flat} {moves : List Move}
    (henter : ∀ {inner result other}, enter inner other = .ok result → Aligned inner →
      Aligned result ∧ ∃ block, Contribution (path :: opened) inner result block)
    (hopen : path ∉ opened) (hid : ∃ copy, flat.files[id]? = some copy ∧ copy.path = path)
    (hflat : Aligned flat) (hmoves : ∀ move ∈ moves, Clean content move)
    (h : moves.foldlM (perform files enter path id content) flat = .ok flat') :
    ∃ block, Contribution opened flat flat' block ∧
      offsetsIn id block = moves.flatMap offsetsOf := by
  induction moves generalizing flat with
  | nil =>
      obtain rfl := Results.pure_eq_ok.1 h
      exact ⟨[], Contribution.none rfl List.prefix_rfl, rfl⟩
  | cons move moves ih =>
      rw [List.foldlM_cons] at h
      obtain ⟨middle, hmiddle, h⟩ := Results.bind_eq_ok.1 h
      obtain ⟨hmove, hmoves⟩ := List.forall_mem_cons.1 hmoves
      obtain ⟨hgrown, block, hblock, hoffsets⟩ :=
        perform_contributes henter hopen hid hflat hmove hmiddle
      obtain ⟨copy, hcopy, hpath⟩ := hid
      obtain ⟨others, hothers, hrest⟩ :=
        ih ⟨copy, getElem?_files_of_grown hblock.files hcopy, hpath⟩ hgrown hmoves h
      refine ⟨block ++ others, hblock.append hothers, ?_⟩
      rw [offsetsIn_append, hoffsets, hrest, List.flatMap_cons]

/-- A visit emits the offsets that the content of the file determines, whatever the
flat source is that it finds. -/
theorem expandFile_contributes {limit : Nat} (hflat : Aligned flat)
    (h : expandFile files options limit opened flat path = .ok flat')
    (hread : files.read path = .ok content) :
    ∃ block, Contribution opened flat flat' block ∧
      offsetsIn (flat.enter path content).2 block = emitted options content := by
  induction limit generalizing opened flat flat' path content with
  | zero => exact absurd h expandFile_zero_ne_ok
  | succ limit ih =>
      obtain ⟨hopen, -⟩ := expandFile_eq_ok h
      obtain ⟨htidy, -⟩ := tidy_moves options content
      rw [expandFile_settled hopen hread hflat] at h
      obtain ⟨hgrown, -, horigins, hid, -⟩ := enter_spec flat path content
      have hentered : (flat.enter path content).1.entries = flat.entries := by
        rw [entries, horigins]
      obtain ⟨block, hblock, hoffsets⟩ := foldlM_contributes
        (fun {inner result other} hresult hinner => by
          obtain ⟨-, _, _, -, hother, -⟩ := expandFile_eq_ok hresult
          obtain ⟨inside, hinside, -⟩ := ih hinner hresult hother
          exact ⟨expandFile_aligned hresult hinner, inside, hinside⟩)
        hopen hid (hflat.enter path content) htidy.clean h
      exact ⟨block, (Contribution.none hentered hgrown).append hblock, hoffsets⟩

end LatexOrigins.Flat

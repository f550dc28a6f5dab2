import LatexOrigins.Files.Path

/-!
# Where a path leads

A path is followed from a directory: a name goes one level down, `..` goes one
level up, and at the top it stays there. From outside only two things can be
told of a path that is not absolute: how many of the directories it starts in it
leaves, and which names it then goes down. Normalizing keeps the names. Of the
directories left it keeps only whether they are odd or even in number, because a
`..` also takes back a `..` that stayed.
-/

namespace LatexOrigins.Path

/-! ## Following components -/

/-- The directory that a component leads to. A directory is given by the names on
the way to it, the last one first. -/
def visit (place : List String) : Component → List String
  | .root => []
  | .here => place
  | .up => place.tail
  | .name text => text :: place

def walk (place : List String) (path : String) : List String :=
  (components path).foldl visit place

/-- How many of the directories that it starts in a path leaves. -/
def climb : List Component → Nat
  | [] => 0
  | .root :: rest => climb rest
  | .here :: rest => climb rest
  | .up :: rest => climb rest + 1
  | .name _ :: rest => climb rest - 1

theorem mem_foldl_visit {parts : List Component} {place : List String} {text : String}
    (h : text ∈ parts.foldl visit place) : text ∈ place ∨ .name text ∈ parts := by
  induction parts generalizing place with
  | nil => exact Or.inl h
  | cons part rest ih =>
      rw [List.foldl_cons] at h
      rcases ih h with hplace | hrest
      · cases part with
        | root => simp [visit] at hplace
        | here => exact Or.inl hplace
        | up => exact Or.inl (List.mem_of_mem_tail hplace)
        | name other =>
            rcases List.mem_cons.1 hplace with rfl | hplace
            · exact Or.inr (by simp)
            · exact Or.inl hplace
      · exact Or.inr (List.mem_cons_of_mem _ hrest)

/-- What lies below the directories that are named is reached only by climbing past
all of them. -/
theorem foldl_visit_append {parts : List Component} (hroot : .root ∉ parts)
    (names below : List String) :
    parts.foldl visit (names ++ below) =
      parts.foldl visit names ++ below.drop (climb parts - names.length) := by
  induction parts generalizing names below with
  | nil => simp [climb]
  | cons part rest ih =>
      have hrest : .root ∉ rest := fun hmem => hroot (List.mem_cons_of_mem _ hmem)
      rw [List.foldl_cons, List.foldl_cons]
      cases part with
      | root => simp at hroot
      | here => exact ih hrest names below
      | name text =>
          have hcount : climb rest - (text :: names).length =
              climb (.name text :: rest) - names.length := by
            rw [climb, List.length_cons]
            omega
          rw [← hcount]
          exact ih hrest (text :: names) below
      | up =>
          cases names with
          | nil =>
              have hbelow : (below.drop 1).drop (climb rest) = below.drop (climb rest + 1) := by
                rw [List.drop_drop, Nat.add_comm]
              calc rest.foldl visit ([] ++ below).tail
                  = rest.foldl visit ([] ++ below.drop 1) := by
                    rw [List.nil_append, List.nil_append, List.drop_one]
                _ = rest.foldl visit [] ++ (below.drop 1).drop (climb rest) :=
                    ih hrest [] (below.drop 1)
                _ = rest.foldl visit [] ++ below.drop (climb rest + 1) := by rw [hbelow]
          | cons text names =>
              have hcount : climb rest - names.length =
                  climb (.up :: rest) - (text :: names).length := by
                rw [climb, List.length_cons]
                omega
              rw [← hcount]
              exact ih hrest names below

theorem foldl_visit_ups (count : Nat) (place : List String) :
    (List.replicate count Component.up).foldl visit place = place.drop count := by
  induction count generalizing place with
  | zero => rfl
  | succ count ih =>
      rw [List.replicate_succ, List.foldl_cons, ih, visit, ← List.drop_one, List.drop_drop,
        Nat.add_comm]

theorem foldl_visit_names (names place : List String) :
    (names.map Component.name).foldl visit place = names.reverse ++ place := by
  induction names generalizing place with
  | nil => rfl
  | cons text names ih =>
      rw [List.map_cons, List.foldl_cons, ih, visit, List.reverse_cons, List.append_assoc,
        List.singleton_append]

/-! ## Routes -/

/-- A route holds the names that are still to go down, and one `..` if the
directories left are odd in number. -/
theorem foldl_follow {parts : List Component} (hroot : .root ∉ parts) (absolute : Bool)
    (names : List String) (count : Nat) :
    parts.foldl Route.follow ⟨absolute, names ++ List.replicate (count % 2) ".."⟩ =
      ⟨absolute, parts.foldl visit names ++
        List.replicate ((count + (climb parts - names.length)) % 2) ".."⟩ := by
  induction parts generalizing names count with
  | nil => simp [climb]
  | cons part rest ih =>
      have hrest : .root ∉ rest := fun hmem => hroot (List.mem_cons_of_mem _ hmem)
      rw [List.foldl_cons, List.foldl_cons]
      cases part with
      | root => simp at hroot
      | here => exact ih hrest names count
      | name text =>
          have hcount : climb rest - (text :: names).length =
              climb (.name text :: rest) - names.length := by
            rw [climb, List.length_cons]
            omega
          rw [← hcount]
          exact ih hrest (text :: names) count
      | up =>
          cases names with
          | nil =>
              -- The `..` that stayed, if there is one, is taken back by this one.
              have hflip : Route.follow ⟨absolute, [] ++ List.replicate (count % 2) ".."⟩ .up =
                  ⟨absolute, [] ++ List.replicate ((count + 1) % 2) ".."⟩ := by
                rcases Nat.mod_two_eq_zero_or_one count with heven | hodd
                · have hnext : (count + 1) % 2 = 1 := by omega
                  rw [heven, hnext]
                  rfl
                · have hnext : (count + 1) % 2 = 0 := by omega
                  rw [hodd, hnext]
                  rfl
              rw [hflip, ih hrest [] (count + 1), climb, List.length_nil, Nat.sub_zero,
                Nat.sub_zero, Nat.add_assoc, Nat.add_comm 1]
              rfl
          | cons text names =>
              have hcount : climb rest - names.length =
                  climb (.up :: rest) - (text :: names).length := by
                rw [climb, List.length_cons]
                omega
              rw [← hcount]
              exact ih hrest names count

/-! ## The steps of a path -/

theorem pieces_eq_splitOn (separator : Char) (l : List Char) :
    pieces separator l = l.splitOn separator := by
  induction l with
  | nil => rfl
  | cons c rest ih =>
      rw [pieces, ih, List.splitOn_cons_eq_if_modifyHead]
      by_cases hc : c = separator
      · simp [hc]
      · rw [if_neg hc, if_neg (by simpa using hc)]
        cases h : rest.splitOn separator with
        | nil => exact absurd h (List.splitOn_ne_nil _ _)
        | cons piece others => rfl

theorem not_mem_piece {separator : Char} {l piece : List Char} (h : piece ∈ pieces separator l) :
    separator ∉ piece := by
  induction l generalizing piece with
  | nil =>
      obtain rfl : piece = [] := by simpa [pieces] using h
      simp
  | cons c rest ih =>
      rw [pieces] at h
      split at h
      · rcases List.mem_cons.1 h with rfl | h
        · simp
        · exact ih h
      · next hc =>
        split at h
        · next hnil => exact absurd hnil (pieces_ne_nil separator rest)
        · next front others hsplit =>
          rcases List.mem_cons.1 h with rfl | h
          · have hfront := ih (by rw [hsplit]; exact List.mem_cons_self)
            simp [hfront, Ne.symm hc]
          · exact ih (by rw [hsplit]; exact List.mem_cons_of_mem _ h)

/-- A text that stands for one component between slashes. -/
structure IsPart (text : String) : Prop where
  ne_nil : text.toList ≠ []
  no_slash : '/' ∉ text.toList

theorem isPart_up : IsPart ".." := by
  constructor <;> decide

/-- The components behind the lead of a path. -/
def steps (path : String) : List Component := (pieces '/' path.toList).filterMap ofPiece

theorem ofPiece_eq_name {piece : List Char} {text : String}
    (h : ofPiece piece = some (.name text)) : text.toList = piece ∧ piece ≠ [] := by
  unfold ofPiece at h
  split at h
  · simp at h
  · next hnot =>
    split at h
    · simp at h
    · obtain rfl : String.ofList piece = text := by simpa using h
      exact ⟨String.toList_ofList, fun hnil => hnot (Or.inl hnil)⟩

theorem root_not_mem_steps (path : String) : .root ∉ steps path := by
  intro hmem
  obtain ⟨piece, -, hpiece⟩ := List.mem_filterMap.1 hmem
  unfold ofPiece at hpiece
  split at hpiece
  · simp at hpiece
  · split at hpiece <;> simp at hpiece

theorem isPart_of_mem_steps {path text : String} (h : .name text ∈ steps path) :
    IsPart text ∧ ofPiece text.toList = some (.name text) := by
  obtain ⟨piece, hmem, hpiece⟩ := List.mem_filterMap.1 h
  obtain ⟨htext, hnil⟩ := ofPiece_eq_name hpiece
  have hslash := not_mem_piece hmem
  rw [← htext] at hnil hslash hpiece
  exact ⟨⟨hnil, hslash⟩, hpiece⟩

theorem walk_eq (place : List String) (path : String) :
    walk place path = (steps path).foldl visit (if isAbsolute path then [] else place) := by
  rw [walk, components, List.foldl_append, steps, lead]
  split
  · rfl
  · split <;> rfl

theorem climb_components (path : String) : climb (components path) = climb (steps path) := by
  rw [components, lead, steps]
  split
  · rfl
  · split <;> rfl

/-! ## Reading a route back -/

theorem steps_join {parts : List String} (h : ∀ part ∈ parts, IsPart part) :
    (pieces '/' (['/'].intercalate (parts.map String.toList))).filterMap ofPiece =
      parts.filterMap fun part => ofPiece part.toList := by
  cases parts with
  | nil => rfl
  | cons part rest =>
      have hslash : ∀ piece ∈ (part :: rest).map String.toList, '/' ∉ piece := by
        intro piece hpiece
        obtain ⟨text, htext, rfl⟩ := List.mem_map.1 hpiece
        exact (h text htext).no_slash
      rw [pieces_eq_splitOn, List.splitOn_intercalate '/' hslash (by simp), List.filterMap_map]
      rfl

theorem steps_toText {route : Route} (h : ∀ part ∈ route.parts, IsPart part) :
    steps route.toText = route.parts.reverse.filterMap fun part => ofPiece part.toList := by
  have hparts : ∀ part ∈ route.parts.reverse, IsPart part :=
    fun part hpart => h part (List.mem_reverse.1 hpart)
  rw [steps, Route.toText, String.toList_ofList]
  cases route.absolute with
  | false => exact steps_join hparts
  | true =>
      -- The piece before the leading slash is empty and stands for no component.
      rw [if_pos rfl, List.singleton_append, pieces, if_pos rfl]
      exact steps_join hparts

theorem head?_intercalate {part : String} {rest : List String} (h : IsPart part) :
    (['/'].intercalate ((part :: rest).map String.toList)).head? = part.toList.head? := by
  obtain ⟨c, cs, hcs⟩ := List.exists_cons_of_ne_nil h.ne_nil
  cases rest with
  | nil => simp [List.intercalate]
  | cons other rest => simp [List.intercalate, hcs]

theorem isAbsolute_toText {route : Route} (h : ∀ part ∈ route.parts, IsPart part) :
    isAbsolute route.toText = route.absolute := by
  rw [isAbsolute, Route.toText, String.toList_ofList]
  cases route.absolute with
  | true => rfl
  | false =>
      rw [if_neg Bool.false_ne_true, List.nil_append, decide_eq_false_iff_not]
      cases hparts : route.parts.reverse with
      | nil => simp [List.intercalate]
      | cons part rest =>
          have hpart : IsPart part := h part (List.mem_reverse.1 (by simp [hparts]))
          rw [head?_intercalate hpart]
          exact fun hhead => hpart.no_slash (List.mem_of_mem_head? hhead)

/-! ## Normalizing -/

/-- The route of a path that is normalized. -/
def routeOf (path : String) : Route :=
  ⟨isAbsolute path,
    (steps path).foldl visit [] ++ List.replicate (climb (steps path) % 2) ".."⟩

theorem normalize_eq_toText (path : String) : normalize path = (routeOf path).toText := by
  have hsteps (absolute : Bool) : (steps path).foldl Route.follow ⟨absolute, []⟩ =
      ⟨absolute, (steps path).foldl visit [] ++
        List.replicate (climb (steps path) % 2) ".."⟩ := by
    have hfollow := foldl_follow (root_not_mem_steps path) absolute [] 0
    rwa [Nat.zero_add, List.length_nil, Nat.sub_zero] at hfollow
  rw [normalize, routeOf, components, List.foldl_append, lead]
  congr 1
  split
  · next habsolute => rw [habsolute, ← hsteps]; rfl
  · next hrelative =>
    rw [Bool.not_eq_true] at hrelative
    rw [hrelative, ← hsteps]
    split <;> rfl

theorem isPart_of_mem_routeOf {path part : String} (h : part ∈ (routeOf path).parts) :
    IsPart part := by
  rcases List.mem_append.1 h with hleft | hup
  · rcases mem_foldl_visit hleft with hnil | hstep
    · simp at hnil
    · exact (isPart_of_mem_steps hstep).1
  · obtain rfl := List.eq_of_mem_replicate hup
    exact isPart_up

theorem filterMap_names {names : List String} {path : String}
    (h : ∀ text ∈ names, .name text ∈ steps path) :
    names.filterMap (fun part => ofPiece part.toList) = names.map .name := by
  induction names with
  | nil => rfl
  | cons text names ih =>
      obtain ⟨htext, hrest⟩ := List.forall_mem_cons.1 h
      rw [List.filterMap_cons, (isPart_of_mem_steps htext).2, ih hrest, List.map_cons]

/-- A path that was normalized climbs first, and at most once, and then goes down the
names that are left. -/
theorem steps_normalize (path : String) :
    steps (normalize path) = List.replicate (climb (steps path) % 2) .up ++
      ((steps path).foldl visit []).reverse.map .name := by
  have hups (count : Nat) : (List.replicate count "..").filterMap
      (fun part => ofPiece part.toList) = List.replicate count .up := List.filterMap_replicate
  have hmem : ∀ text ∈ ((steps path).foldl visit []).reverse, .name text ∈ steps path := by
    intro text htext
    rcases mem_foldl_visit (List.mem_reverse.1 htext) with hnil | hstep
    · simp at hnil
    · exact hstep
  rw [normalize_eq_toText, steps_toText fun _ => isPart_of_mem_routeOf, routeOf,
    List.reverse_append, List.filterMap_append, List.reverse_replicate, hups, filterMap_names hmem]

theorem isAbsolute_normalize (path : String) : isAbsolute (normalize path) = isAbsolute path := by
  rw [normalize_eq_toText, isAbsolute_toText fun _ => isPart_of_mem_routeOf, routeOf]

theorem walk_eq_append (place : List String) (path : String) :
    walk place path = (steps path).foldl visit [] ++
      (if isAbsolute path then [] else place).drop (climb (steps path)) := by
  rw [walk_eq]
  exact foldl_visit_append (root_not_mem_steps path) [] _

theorem walk_normalize (place : List String) (path : String) :
    walk place (normalize path) = (steps path).foldl visit [] ++
      (if isAbsolute path then [] else place).drop (climb (steps path) % 2) := by
  rw [walk_eq, steps_normalize, isAbsolute_normalize, List.foldl_append, foldl_visit_ups,
    foldl_visit_names, List.reverse_reverse]

theorem drop_mod_two_eq_iff {l : List String} {count : Nat} :
    l.drop (count % 2) = l.drop count ↔ count ≤ 1 ∨ l.length ≤ count % 2 := by
  constructor
  · intro h
    have hlength := congrArg List.length h
    rw [List.length_drop, List.length_drop] at hlength
    omega
  · rintro (hcount | hlength)
    · rw [Nat.mod_eq_of_lt (Nat.lt_succ_of_le hcount)]
    · rw [List.drop_eq_nil_of_le hlength, List.drop_eq_nil_of_le (by omega)]

/-- A path that is normalized leads to the same directory as before exactly if it is
absolute, or leaves at most one directory that it starts in, or if there are no more
directories to leave than the one or none that it still leaves afterwards. -/
theorem walk_normalize_eq_iff (place : List String) (path : String) :
    walk place (normalize path) = walk place path ↔
      isAbsolute path = true ∨ climb (components path) ≤ 1 ∨
        place.length ≤ climb (components path) % 2 := by
  rw [walk_normalize, walk_eq_append, List.append_cancel_left_eq, climb_components]
  by_cases habsolute : isAbsolute path = true
  · simp [habsolute]
  · rw [if_neg habsolute, drop_mod_two_eq_iff]
    simp [habsolute]

/-- The second `..` of `../..` takes back the first, so that nothing is left of a path
that leaves two directories. -/
theorem not_walk_normalize_upUp : normalize "../.." = "" ∧
    walk ["chapters", "thesis"] (normalize "../..") ≠ walk ["chapters", "thesis"] "../.." := by
  decide +kernel

end LatexOrigins.Path

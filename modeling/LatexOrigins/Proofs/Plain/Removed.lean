import LatexOrigins.Proofs.Markup.Balanced
import LatexOrigins.Proofs.Markup.Search
import LatexOrigins.Proofs.Markup.Trimmed
import LatexOrigins.Proofs.Plain.Behind

/-!
# Removed constructs

Environments that do not belong to the prose, and formulas, are taken out as a whole: from
their opening to the closing that is searched for behind it, whatever stands between them and
whatever follows. What is left is nothing, or the placeholder of a formula, whose bytes point
into what they stand for.
-/

namespace LatexOrigins.Plain

open Markup

variable {options : Options} {start body close name construct label : String}

/-! ## Formulas -/

theorem bytes_around (start body close behind : String) :
    Text.bytes (start ++ body ++ close ++ behind) =
      Text.bytes start ++ (Text.bytes body ++ (Text.bytes close ++ Text.bytes behind)) := by
  simp only [Text.bytes_append, List.append_assoc]

theorem formula_around (options : Options) (h : Unclosed (Text.bytes close) (Text.bytes body))
    (hsome : Text.bytes close ≠ []) (start behind : String) :
    formula options start.utf8ByteSize (Text.bytes close)
        (Text.bytes (start ++ body ++ close ++ behind)) =
      ⟨.replace options.mathPlaceholder (start ++ body ++ close).utf8ByteSize,
        (start ++ body ++ close).utf8ByteSize⟩ := by
  unfold formula
  rw [bytes_around, ← Text.length_bytes start, List.drop_left, h.unescapedIndexOf?_append hsome]
  simp only [Text.length_bytes, String.utf8ByteSize_append]

theorem opens_formula {behind : String} (h : Unclosed (Text.bytes close) (Text.bytes body))
    (hsome : Text.bytes close ≠ [])
    (hopens : Opens options (Text.bytes start ++ (Text.bytes body ++
        (Text.bytes close ++ Text.bytes behind)))
      (formula options start.utf8ByteSize (Text.bytes close) (Text.bytes start ++
        (Text.bytes body ++ (Text.bytes close ++ Text.bytes behind))))) :
    Opens options (Text.bytes (start ++ body ++ close ++ behind))
      ⟨.replace options.mathPlaceholder (start ++ body ++ close).utf8ByteSize,
        (start ++ body ++ close).utf8ByteSize⟩ := by
  rwa [← bytes_around, formula_around options h hsome] at hopens

theorem opens_dollar (options : Options) {rest : List UInt8} (h : rest.head? ≠ some dollar) :
    Opens options (Text.bytes "$" ++ rest)
      (formula options "$".utf8ByteSize (Text.bytes "$") (Text.bytes "$" ++ rest)) := by
  refine ⟨dollar, rest, rfl, rfl, ?_⟩
  change construct options dollar rest (dollar :: rest) =
    formula options 1 [dollar] (dollar :: rest)
  unfold construct
  rw [if_neg (by decide), if_neg (by decide), if_pos rfl, if_neg h]

theorem opens_symbol {b : UInt8} (hb : ¬ isLetter b = true) (rest : List UInt8) :
    Opens options (backslash :: b :: rest)
      (controlSymbol options (b :: rest) (backslash :: b :: rest)) := by
  have hword : wordWidth (b :: rest) = 0 := spanLength_cons_of_neg hb rest
  refine ⟨backslash, b :: rest, rfl, rfl, ?_⟩
  unfold construct
  simp only [if_true, hword, List.take_zero]

theorem opens_parenthesis (options : Options) (rest : List UInt8) :
    Opens options (Text.bytes "\\(" ++ rest)
      (formula options "\\(".utf8ByteSize (Text.bytes "\\)") (Text.bytes "\\(" ++ rest)) :=
  opens_symbol (b := 0x28) (by decide) rest

theorem opens_bracket (options : Options) (rest : List UInt8) :
    Opens options (Text.bytes "\\[" ++ rest)
      (formula options "\\[".utf8ByteSize (Text.bytes "\\]") (Text.bytes "\\[" ++ rest)) :=
  opens_symbol (b := leftBracket) (by decide) rest

/-! ## Environments -/

/-- A name of an environment that is read as it is written. -/
structure PlainName (name : String) : Prop where
  unescaped : ∀ b ∈ Text.bytes name, b ≠ backslash ∧ b ≠ leftBrace ∧ b ≠ rightBrace
  trimmed : Text.Trimmed name

def opening (name : String) : String := "\\begin\x7b" ++ name ++ "\x7d"

def ending (name : String) : String := "\\end\x7b" ++ name ++ "\x7d"

theorem bytes_ending (name : String) : Text.bytes (ending name) =
    backslash :: (Text.bytes "end\x7b" ++ Text.bytes name ++ [rightBrace]) := by
  rw [ending, Text.bytes_append, Text.bytes_append]
  rfl

theorem bytes_opening (name : String) : Text.bytes (opening name) =
    Text.bytes "\\begin" ++ leftBrace :: (Text.bytes name ++ [rightBrace]) := by
  rw [opening, Text.bytes_append, Text.bytes_append]
  rfl

theorem bytes_opening_append (name : String) (rest : List UInt8) :
    Text.bytes (opening name) ++ rest =
      Text.bytes "\\begin" ++ leftBrace :: (Text.bytes name ++ rightBrace :: rest) := by
  rw [bytes_opening, List.append_assoc, List.cons_append, List.append_assoc, List.singleton_append]

theorem opens_environment (options : Options) (name : String) (rest : List UInt8) :
    Opens options (Text.bytes (opening name) ++ rest)
      (environment options 6 (Text.bytes (opening name) ++ rest)) := by
  rw [bytes_opening_append]
  have hletters : ∀ b ∈ Text.bytes "begin", isLetter b = true := by decide +kernel
  refine opens_word options (by decide +kernel) hletters ?_
  rintro b hb
  obtain rfl := Option.some.inj hb
  decide

theorem any_spells {names : List String} :
    names.any (spells (Text.bytes name)) = true ↔ name ∈ names := by
  rw [List.any_eq_true]
  constructor
  · rintro ⟨other, hmem, hspells⟩
    rwa [← Text.bytes_injective (eq_of_beq hspells)]
  · exact fun hmem => ⟨name, hmem, beq_self_eq_true _⟩

namespace PlainName

theorem exists_braced (hname : PlainName name) (rest : List UInt8) :
    ∃ g, braced ((Text.bytes (opening name) ++ rest).drop 6) = some g ∧
      Text.trim (g.content ((Text.bytes (opening name) ++ rest).drop 6)) = Text.bytes name ∧
      6 + g.width = (opening name).utf8ByteSize := by
  have hsix : (Text.bytes "\\begin").length = 6 := by decide +kernel
  have hdrop : (Text.bytes (opening name) ++ rest).drop 6 =
      leftBrace :: (Text.bytes name ++ rightBrace :: rest) := by
    rw [bytes_opening_append, ← hsix, List.drop_left]
  refine ⟨_, by rw [hdrop, braced_balanced (.of_bytes hname.unescaped)], ?_, ?_⟩
  · rw [hdrop, Group.content]
    simp only [Nat.add_sub_cancel_left, List.drop_succ_cons, List.drop_zero, List.take_left]
    exact hname.trimmed.trim_eq
  · rw [← Text.length_bytes (opening name), bytes_opening, List.length_append, hsix,
      List.length_cons, List.length_append, List.length_singleton]
    simp only [Group.width]
    omega

/-- An environment ends with the closing of its name that is written behind its body: no other
tag can start within it, because it holds one backslash. -/
theorem environmentWidth_around (hname : PlainName name)
    (hbody : ¬ Text.bytes (ending name) <:+: Text.bytes body) (behind : String) :
    environmentWidth (Text.bytes name) (opening name).utf8ByteSize
        (Text.bytes (opening name ++ body ++ ending name ++ behind)) =
      (opening name ++ body ++ ending name).utf8ByteSize := by
  have hfirst : backslash ∉ Text.bytes "end\x7b" ++ Text.bytes name ++ [rightBrace] := by
    have hend : backslash ∉ Text.bytes "end\x7b" := by decide +kernel
    have hself : backslash ∉ Text.bytes name := fun hmem => (hname.unescaped _ hmem).1 rfl
    simp only [List.mem_append, List.mem_singleton, not_or]
    exact ⟨⟨hend, hself⟩, by decide⟩
  have htag : closingTag (Text.bytes name) = Text.bytes (ending name) := (bytes_ending name).symm
  unfold environmentWidth
  rw [htag, bytes_around, ← Text.length_bytes (opening name), List.drop_left]
  rw [bytes_ending] at hbody ⊢
  rw [indexOf?_append hfirst hbody, ← bytes_ending]
  simp only [Text.length_bytes, String.utf8ByteSize_append]

theorem environment_skipped (hname : PlainName name) (hskip : name ∈ options.skipEnvironments)
    (rest : List UInt8) :
    environment options 6 (Text.bytes (opening name) ++ rest) =
      ⟨.nothing, environmentWidth (Text.bytes name) (opening name).utf8ByteSize
        (Text.bytes (opening name) ++ rest)⟩ := by
  obtain ⟨g, hg, hlabel, hlead⟩ := hname.exists_braced rest
  unfold environment
  simp only [hg, hlabel, hlead]
  rw [if_pos (any_spells.2 hskip)]

theorem environment_math (hname : PlainName name) (hskip : name ∉ options.skipEnvironments)
    (hmath : name ∈ options.mathEnvironments) (rest : List UInt8) :
    environment options 6 (Text.bytes (opening name) ++ rest) =
      ⟨.replace options.mathPlaceholder (environmentWidth (Text.bytes name)
          (opening name).utf8ByteSize (Text.bytes (opening name) ++ rest)),
        environmentWidth (Text.bytes name) (opening name).utf8ByteSize
          (Text.bytes (opening name) ++ rest)⟩ := by
  obtain ⟨g, hg, hlabel, hlead⟩ := hname.exists_braced rest
  unfold environment
  simp only [hg, hlabel, hlead]
  rw [if_neg (any_spells.not.2 hskip), if_pos (any_spells.2 hmath)]

end PlainName

/-! ## Constructs that are taken out -/

/-- A construct that is taken out as a whole, with what stands for it. -/
inductive Removed (options : Options) : String → String → Prop where
  | skipped {name body : String} (hname : PlainName name)
      (hskip : name ∈ options.skipEnvironments)
      (hbody : ¬ Text.bytes (ending name) <:+: Text.bytes body) :
      Removed options (opening name ++ body ++ ending name) ""
  | math {name body : String} (hname : PlainName name)
      (hskip : name ∉ options.skipEnvironments) (hmath : name ∈ options.mathEnvironments)
      (hbody : ¬ Text.bytes (ending name) <:+: Text.bytes body) :
      Removed options (opening name ++ body ++ ending name) options.mathPlaceholder
  | dollars {body : String} (hsome : body ≠ "") (h : Unclosed (Text.bytes "$") (Text.bytes body)) :
      Removed options ("$" ++ body ++ "$") options.mathPlaceholder
  | parentheses {body : String} (h : Unclosed (Text.bytes "\\)") (Text.bytes body)) :
      Removed options ("\\(" ++ body ++ "\\)") options.mathPlaceholder
  | brackets {body : String} (h : Unclosed (Text.bytes "\\]") (Text.bytes body)) :
      Removed options ("\\[" ++ body ++ "\\]") options.mathPlaceholder

/-- What is left of a construct that is taken out: its label, if there is one. -/
inductive Leaves (label : String) (width : Nat) : Residue → Prop where
  | nothing (h : label = "") : Leaves label width .nothing
  | label : Leaves label width (.replace label width)

theorem head?_of_unclosed_dollar (hsome : body ≠ "")
    (h : Unclosed (Text.bytes "$") (Text.bytes body)) (rest : List UInt8) :
    (Text.bytes body ++ rest).head? ≠ some dollar := by
  have hdollar : Text.bytes "$" = [dollar] := by decide +kernel
  rw [hdollar] at h
  intro hhead
  generalize hb : Text.bytes body = l at h hhead
  cases h with
  | nil => exact hsome (Text.bytes_injective hb)
  | byte hback hclose =>
      obtain rfl := Option.some.inj hhead
      exact hclose (List.prefix_append [dollar] _)
  | escape =>
      obtain hfirst := Option.some.inj hhead
      exact absurd hfirst (by decide)

/-- What a construct makes does not depend on what follows. -/
theorem Removed.exists_opens (h : Removed options construct label) (behind : String) :
    ∃ residue, Leaves label construct.utf8ByteSize residue ∧
      Opens options (Text.bytes (construct ++ behind)) ⟨residue, construct.utf8ByteSize⟩ := by
  cases h with
  | @skipped name body hname hskip hbody =>
      have hopens := opens_environment options name
        (Text.bytes body ++ (Text.bytes (ending name) ++ Text.bytes behind))
      rw [hname.environment_skipped hskip, ← bytes_around,
        hname.environmentWidth_around hbody] at hopens
      exact ⟨_, .nothing rfl, hopens⟩
  | @math name body hname hskip hmath hbody =>
      have hopens := opens_environment options name
        (Text.bytes body ++ (Text.bytes (ending name) ++ Text.bytes behind))
      rw [hname.environment_math hskip hmath, ← bytes_around,
        hname.environmentWidth_around hbody] at hopens
      exact ⟨_, .label, hopens⟩
  | dollars hsome h =>
      have hfirst := head?_of_unclosed_dollar hsome h (Text.bytes "$" ++ Text.bytes behind)
      exact ⟨_, .label, opens_formula h (by decide +kernel) (opens_dollar options hfirst)⟩
  | parentheses h =>
      exact ⟨_, .label, opens_formula h (by decide +kernel) (opens_parenthesis options _)⟩
  | brackets h =>
      exact ⟨_, .label, opens_formula h (by decide +kernel) (opens_bracket options _)⟩

/-! ## Stripping around them -/

theorem Leaves.bytes {width : Nat} {residue : Residue} (h : Leaves label width residue)
    (flat : String) (offset : Nat) :
    (residue.blocksAt offset).flatMap (Block.bytes flat) = Text.bytes label := by
  cases h with
  | nothing h =>
      subst h
      rfl
  | label => exact List.flatMap_singleton _ _

theorem Leaves.map {width : Nat} {residue : Residue} (h : Leaves label width residue)
    (hpos : 0 < width) (offset : Nat) :
    ((residue.blocksAt offset).flatMap Block.map).length = label.utf8ByteSize ∧
      ∀ entry ∈ (residue.blocksAt offset).flatMap Block.map,
        offset ≤ entry ∧ entry < offset + width := by
  cases h with
  | nothing h =>
      subst h
      exact ⟨rfl, fun entry hentry => absurd hentry List.not_mem_nil⟩
  | label =>
      rw [Residue.blocksAt, List.flatMap_singleton, Block.map]
      refine ⟨by rw [List.length_map, List.length_range], fun entry hentry => ?_⟩
      obtain ⟨k, -, rfl⟩ := List.mem_map.1 hentry
      omega

/-- A construct that is taken out leaves its label, behind any text without markup and whatever
follows. The entries of the text before it are its own offsets, those of the label lie in the
construct, and what follows is stripped as if it stood alone, with its entries moved behind the
construct. -/
theorem strip_removed {before : String} (hbefore : Unmarked before)
    (h : Removed options construct label) (behind : String) :
    ∃ plain map inside, strip options behind = .ok (plain, map) ∧
      strip options (before ++ construct ++ behind) = .ok (before ++ label ++ plain,
        (List.range before.utf8ByteSize ++ inside ++
          map.toList.map (before.utf8ByteSize + construct.utf8ByteSize + ·)).toArray) ∧
      inside.length = label.utf8ByteSize ∧
      ∀ entry ∈ inside, before.utf8ByteSize ≤ entry ∧
        entry < before.utf8ByteSize + construct.utf8ByteSize := by
  obtain ⟨residue, hleaves, hopens⟩ := h.exists_opens behind
  obtain ⟨text, plain, map, hplain, htext, hbytes⟩ := hbefore.strip_append hopens
  obtain ⟨hlength, hinside⟩ := hleaves.map hopens.width_pos before.utf8ByteSize
  rw [hleaves.bytes, ← Text.bytes_append, ← Text.bytes_append] at hbytes
  obtain rfl := Text.bytes_injective hbytes
  exact ⟨plain, map, _, hplain, htext, hlength, hinside⟩

/-- An escaped dollar does not close a formula, and the end of another environment does not end
an environment. -/
theorem strip_removed_formula_and_environment :
    (Unmarked "é " ∧ Removed .standard ("$" ++ "a\\$b" ++ "$") "X" ∧
      ∃ plain map inside, strip .standard "~$c$" = .ok (plain, map) ∧
        strip .standard ("é " ++ ("$" ++ "a\\$b" ++ "$") ++ "~$c$") = .ok ("é " ++ "X" ++ plain,
          (List.range 3 ++ inside ++ map.toList.map (3 + 6 + ·)).toArray) ∧
        inside.length = 1 ∧ ∀ entry ∈ inside, 3 ≤ entry ∧ entry < 3 + 6) ∧
    (Unmarked "a" ∧
      Removed .standard (opening "comment" ++ "$\\end\x7bmath\x7d" ++ ending "comment") "" ∧
      ∃ plain map inside, strip .standard "$" = .ok (plain, map) ∧
        strip .standard
            ("a" ++ (opening "comment" ++ "$\\end\x7bmath\x7d" ++ ending "comment") ++ "$") =
          .ok ("a" ++ "" ++ plain,
            (List.range 1 ++ inside ++ map.toList.map (1 + 39 + ·)).toArray) ∧
        inside.length = 0 ∧ ∀ entry ∈ inside, 1 ≤ entry ∧ entry < 1 + 39) := by
  have hformula : Removed .standard ("$" ++ "a\\$b" ++ "$") "X" :=
    .dollars (by decide) ((unclosed_iff (by decide +kernel)).2 (by decide +kernel))
  have henvironment : Removed .standard
      (opening "comment" ++ "$\\end\x7bmath\x7d" ++ ending "comment") "" :=
    .skipped ⟨by decide +kernel, by decide +kernel⟩ (by decide) (by decide +kernel)
  have hletter : Unmarked "a" := by decide +kernel
  have haccent : Unmarked "é " := by decide +kernel
  exact ⟨⟨haccent, hformula, strip_removed haccent hformula "~$c$"⟩,
    hletter, henvironment, strip_removed hletter henvironment "$"⟩

end LatexOrigins.Plain

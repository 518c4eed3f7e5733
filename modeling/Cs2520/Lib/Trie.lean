import Mathlib.Algebra.BigOperators.Group.List.Lemmas
import Mathlib.Algebra.GroupWithZero.Nat
import Mathlib.Data.List.Dedup
import Mathlib.Data.List.Induction
import Mathlib.Data.List.Lex
import Mathlib.Logic.Function.Basic
import Mathlib.Tactic.Common

/-
  Tries that count words: every node has a counter and a
  child for every letter, which may be `null`.

  A trie built by adding words lists each of them once, in
  lexicographic order, with its multiplicity.

  Main declarations:
    * `Trie`
    * `Trie.add`
    * `Trie.list`
    * `Trie.find_add`
    * `Trie.list_sorted`
    * `Trie.mem_list_ofWords`
    * `Trie.sum_list_ofWords`
-/

------------------------------------------------------------
-- Tries
------------------------------------------------------------

namespace Cs2520

namespace Lib

variable {κ : Type}

/- No node, or a counter and the children. -/
inductive Trie (κ : Type) where
| null : Trie κ
| node : Nat → (κ → Trie κ) → Trie κ

namespace Trie

/- A new node. -/
def fresh : Trie κ :=
  .node 0 (fun _ => .null)

/- A new node where there is none. -/
def orFresh : Trie κ → Trie κ
  | .null => fresh
  | .node n child => .node n child

/- How often a word has been added. -/
def find : Trie κ → List κ → Nat
  | .null, _ => 0
  | .node n _, [] => n
  | .node _ child, x :: word => (child x).find word

/-
  All words with their counters, by the order of `letters`;
  `path` is the way to the node.
-/
def list
    (letters : List κ) :
    Trie κ → List κ → List (List κ × Nat)
  | .null, _ => []
  | .node n child, path =>
      (if 0 < n then [(path, n)] else []) ++
        letters.flatMap
          (fun x => (child x).list letters (path ++ [x]))

variable [DecidableEq κ]

/- Add a word to a node. -/
def add : Trie κ → List κ → Trie κ
  | .null, _ => .null
  | .node n child, [] => .node (n + 1) child
  | .node n child, x :: word =>
      .node n
        (Function.update child x ((child x).orFresh.add word))

end Trie

end Lib

end Cs2520

------------------------------------------------------------
-- Counters
------------------------------------------------------------

namespace Cs2520

namespace Lib

namespace Trie

variable {κ : Type}

theorem find_fresh
    (word : List κ) :
    (fresh : Trie κ).find word = 0 := by
  cases word with
  | nil => rfl
  | cons x word => rfl

theorem find_orFresh
    (t : Trie κ)
    (word : List κ) :
    t.orFresh.find word = t.find word := by
  cases t with
  | null =>
      rw [orFresh, find_fresh]
      rfl
  | node n child => rfl

theorem orFresh_ne_null
    (t : Trie κ) :
    t.orFresh ≠ .null := by
  cases t with
  | null => nofun
  | node n child => nofun

variable [DecidableEq κ]

theorem add_ne_null
    {t : Trie κ}
    (hNode : t ≠ .null)
    (word : List κ) :
    t.add word ≠ .null := by
  cases t with
  | null => exact absurd rfl hNode
  | node n child =>
      cases word with
      | nil => nofun
      | cons x word => nofun

/- Adding a word counts it, and no other. -/
theorem find_add
    {t : Trie κ}
    (hNode : t ≠ .null)
    (word other : List κ) :
    (t.add word).find other =
      t.find other + if other = word then 1 else 0 := by
  induction word generalizing t other with
  | nil =>
      cases t with
      | null => exact absurd rfl hNode
      | node n child =>
          cases other with
          | nil => rfl
          | cons y other => rfl
  | cons x word ih =>
      cases t with
      | null => exact absurd rfl hNode
      | node n child =>
          cases other with
          | nil => rfl
          | cons y other =>
              rw [add, find, find]
              by_cases hSame : y = x
              · subst hSame
                rw [Function.update_self,
                  ih (orFresh_ne_null _), find_orFresh]
                simp
              · rw [Function.update_of_ne hSame]
                simp [hSame]

/- Any number of words. -/
theorem find_foldl
    {t : Trie κ}
    (hNode : t ≠ .null)
    (words : List (List κ))
    (word : List κ) :
    (words.foldl add t).find word =
      t.find word + words.count word := by
  induction words generalizing t with
  | nil => rfl
  | cons first rest ih =>
      rw [List.foldl_cons, ih (add_ne_null hNode first),
        find_add hNode, List.count_cons]
      simp only [beq_iff_eq, eq_comm (a := first)]
      omega

end Trie

end Lib

end Cs2520

------------------------------------------------------------
-- Lists of Words
------------------------------------------------------------

namespace Cs2520

namespace Lib

namespace Trie

variable {κ : Type}
variable {letters : List κ}

/- What is listed has been counted. -/
theorem of_mem_list
    {t : Trie κ}
    {path : List κ}
    {entry : List κ × Nat}
    (hMem : entry ∈ t.list letters path) :
    ∃ word,
      entry = (path ++ word, t.find word) ∧
        0 < t.find word := by
  induction t generalizing path with
  | null => cases hMem
  | node n child ih =>
      rcases List.mem_append.mp hMem with hHere | hBelow
      · split at hHere
        · next hPos =>
            rw [List.mem_singleton.mp hHere]
            refine ⟨[], ?_, hPos⟩
            rw [List.append_nil]
            rfl
        · cases hHere
      · rcases List.mem_flatMap.mp hBelow with ⟨x, _, hIn⟩
        rcases ih x hIn with ⟨word, hEntry, hPos⟩
        refine ⟨x :: word, ?_, hPos⟩
        rw [hEntry, List.append_assoc]
        rfl

/- What has been counted is listed. -/
theorem mem_list_of_pos
    (hAll : ∀ x, x ∈ letters)
    {t : Trie κ}
    (path : List κ)
    {word : List κ}
    (hPos : 0 < t.find word) :
    (path ++ word, t.find word) ∈ t.list letters path := by
  induction t generalizing path word with
  | null => exact absurd hPos (Nat.lt_irrefl 0)
  | node n child ih =>
      apply List.mem_append.mpr
      cases word with
      | nil =>
          have hHere : 0 < n := hPos
          left
          rw [if_pos hHere, List.append_nil]
          exact List.mem_singleton_self _
      | cons x word =>
          right
          have hIn := ih x (path ++ [x]) hPos
          rw [List.append_assoc] at hIn
          exact List.mem_flatMap.mpr ⟨x, hAll x, hIn⟩

/- The words are listed in lexicographic order. -/
theorem list_sorted
    {r : κ → κ → Prop}
    (hLetters : letters.Pairwise r)
    (t : Trie κ)
    (path : List κ) :
    (t.list letters path).Pairwise
      (fun e e' => List.Lex r e.1 e'.1) := by
  induction t generalizing path with
  | null => exact List.Pairwise.nil
  | node n child ih =>
      have hBelow :
          ∀ x, ∀ e ∈ (child x).list letters (path ++ [x]),
            ∃ word, e.1 = path ++ x :: word := by
        intro x e hMem
        rcases of_mem_list hMem with ⟨word, hEntry, _⟩
        refine ⟨word, ?_⟩
        rw [hEntry, List.append_assoc]
        rfl
      refine List.pairwise_append.mpr ⟨?_, ?_, ?_⟩
      · split
        · exact List.pairwise_singleton _ _
        · exact List.Pairwise.nil
      · apply List.pairwise_flatMap.mpr
        refine ⟨fun x _ => ih x (path ++ [x]), ?_⟩
        apply hLetters.imp
        intro x y hLess e he e' he'
        rcases hBelow x e he with ⟨word, hWord⟩
        rcases hBelow y e' he' with ⟨word', hWord'⟩
        rw [hWord, hWord']
        exact List.Lex.append_left r (.rel hLess) path
      · intro e he e' he'
        split at he
        · rw [List.mem_singleton.mp he]
          rcases List.mem_flatMap.mp he' with ⟨x, _, hIn⟩
          rcases hBelow x e' hIn with ⟨word, hWord⟩
          have hPrefix :=
            List.Lex.append_left r
              (List.Lex.nil (a := x) (l := word)) path
          rw [List.append_nil] at hPrefix
          rw [hWord]
          exact hPrefix
        · cases he

end Trie

end Lib

end Cs2520

------------------------------------------------------------
-- Words Added One After Another
------------------------------------------------------------

namespace Cs2520

namespace Lib

namespace Trie

variable {κ : Type} [DecidableEq κ]
variable {letters : List κ}

/- The trie that has counted some words. -/
def ofWords
    (words : List (List κ)) : Trie κ :=
  words.foldl add fresh

theorem ofWords_concat
    (words : List (List κ))
    (word : List κ) :
    ofWords (words ++ [word]) = (ofWords words).add word :=
  List.foldl_concat _ _ _ _

theorem ofWords_ne_null
    (words : List (List κ)) :
    ofWords words ≠ .null := by
  induction words using List.reverseRecOn with
  | nil => nofun
  | append_singleton words word ih =>
      rw [ofWords_concat]
      exact add_ne_null ih word

theorem find_ofWords
    (words : List (List κ))
    (word : List κ) :
    (ofWords words).find word = words.count word := by
  rw [ofWords, find_foldl (by nofun), find_fresh,
    Nat.zero_add]

/- Each word is listed with its multiplicity. -/
theorem mem_list_ofWords
    (hAll : ∀ x, x ∈ letters)
    (words : List (List κ))
    (entry : List κ × Nat) :
    entry ∈ (ofWords words).list letters [] ↔
      entry.1 ∈ words ∧ entry.2 = words.count entry.1 := by
  constructor
  · intro hMem
    rcases of_mem_list hMem with ⟨word, rfl, hPos⟩
    rw [find_ofWords] at hPos ⊢
    exact ⟨List.count_pos_iff.mp hPos, rfl⟩
  · rintro ⟨hMem, hCount⟩
    have hPos := List.count_pos_iff.mpr hMem
    rw [← find_ofWords] at hPos
    have hIn := mem_list_of_pos hAll [] hPos
    rw [find_ofWords, ← hCount] at hIn
    exact hIn

/- The multiplicities add up to the number of words. -/
theorem sum_list_ofWords
    {r : κ → κ → Prop}
    [Std.Asymm r]
    (hAll : ∀ x, x ∈ letters)
    (hLetters : letters.Pairwise r)
    (words : List (List κ)) :
    (((ofWords words).list letters []).map Prod.snd).sum =
      words.length := by
  have hMem := mem_list_ofWords hAll words
  have hNodup :
      (((ofWords words).list letters []).map
        Prod.fst).Nodup := by
    apply List.pairwise_map.mpr
    apply (list_sorted hLetters (ofWords words) []).imp
    intro e e' hLess hSame
    rw [hSame] at hLess
    exact Std.Asymm.asymm _ _ hLess hLess
  have hPerm :
      (((ofWords words).list letters []).map
        Prod.fst).Perm words.dedup := by
    apply
      (List.perm_ext_iff_of_nodup hNodup
        words.nodup_dedup).mpr
    intro word
    rw [List.mem_dedup, List.mem_map]
    constructor
    · rintro ⟨e, hIn, rfl⟩
      exact ((hMem e).mp hIn).1
    · intro hIn
      exact
        ⟨(word, words.count word), (hMem _).mpr ⟨hIn, rfl⟩,
          rfl⟩
  have hCounts :
      ((ofWords words).list letters []).map Prod.snd =
        (((ofWords words).list letters []).map
          Prod.fst).map (fun word => words.count word) := by
    rw [List.map_map]
    apply List.map_congr_left
    intro e hIn
    exact ((hMem e).mp hIn).2
  rw [hCounts, (hPerm.map _).sum_eq,
    ← List.sum_map_count_dedup_eq_length words]
  congr 1
  apply List.map_congr_left
  intro word _
  apply List.countP_congr
  intro other _
  exact
    beq_iff_eq.trans
      (@beq_iff_eq _ instBEqOfDecidableEq _ other word).symm

end Trie

end Lib

end Cs2520

import Mathlib.Data.List.Basic
import Mathlib.Tactic.Common

/-
  Byte buffers as C code uses them: writing over the first
  bytes of a buffer, text that ends at the first `nul`, and
  streams that arrive in pieces.

  Main declarations:
    * `overlay`
    * `Block`
    * `text`
    * `cString`
    * `cString_eq_some_iff`
    * `cString_overlay_iff`
    * `Cut`
    * `flatMap_eq_iff`
    * `le32`
    * `ofLe32`
    * `le32_ofLe32`
    * `InInt32`
-/

------------------------------------------------------------
-- Overwriting
------------------------------------------------------------

namespace Cs2520

namespace Lib

variable {α : Type}

/-
  Write `new` over the first bytes of `old`, as far as the
  buffer reaches. What lies behind stays.
-/
def overlay
    (old new : List α) : List α :=
  new.take old.length ++ old.drop new.length

@[simp] theorem length_overlay
    (old new : List α) :
    (overlay old new).length = old.length := by
  simp only [overlay, List.length_append, List.length_take,
    List.length_drop]
  omega

/- Bytes that fit are all written. -/
theorem overlay_eq_append
    {old new : List α}
    (hFits : new.length ≤ old.length) :
    overlay old new = new ++ old.drop new.length := by
  rw [overlay, List.take_of_length_le hFits]

/- A buffer of `n` elements. -/
structure Block (α : Type) (n : Nat) where
  bytes : List α
  size : bytes.length = n
deriving DecidableEq

theorem Block.eq_of_bytes
    {n : Nat}
    {b b' : Block α n}
    (hBytes : b.bytes = b'.bytes) :
    b = b' := by
  cases b
  cases b'
  cases hBytes
  rfl

/- Write over the first elements of a buffer. -/
def Block.write
    {n : Nat}
    (b : Block α n)
    (new : List α) : Block α n where
  bytes := overlay b.bytes new
  size := by rw [length_overlay, b.size]

/- What fits stands first, followed by what was there. -/
theorem Block.bytes_write
    {n : Nat}
    (b : Block α n)
    {new : List α}
    (hFits : new.length ≤ n) :
    (b.write new).bytes = new ++ b.bytes.drop new.length :=
  overlay_eq_append (by rw [b.size]; exact hFits)

/- The first `n` elements of a list that has as many. -/
def Block.ofPrefix
    (n : Nat)
    (b : List α)
    (hSize : n ≤ b.length) : Block α n where
  bytes := b.take n
  size := List.length_take_of_le hSize

/- A buffer filled with one value. -/
def Block.fill
    (n : Nat)
    (x : α) : Block α n where
  bytes := List.replicate n x
  size := List.length_replicate

/- A whole buffer replaces what was there. -/
theorem overlay_of_length_eq
    {old new : List α}
    (hSize : new.length = old.length) :
    overlay old new = new := by
  rw [overlay_eq_append (Nat.le_of_eq hSize), hSize,
    List.drop_length, List.append_nil]

end Lib

end Cs2520

------------------------------------------------------------
-- Terminated Text
------------------------------------------------------------

namespace Cs2520

namespace Lib

variable {α : Type} [DecidableEq α] (nul : α)

/- The first `strlen` bytes. -/
def text
    (b : List α) : List α :=
  b.takeWhile (fun x => x ≠ nul)

/-
  What `%s` prints: the text, if the buffer ends it.
-/
def cString
    (b : List α) : Option (List α) :=
  if nul ∈ b then some (text nul b) else none

@[simp] theorem text_nil :
    text nul ([] : List α) = [] := rfl

theorem text_cons
    (x : α)
    (b : List α) :
    text nul (x :: b) =
      if x = nul then [] else x :: text nul b := by
  by_cases hx : x = nul <;> simp [text, hx]

theorem text_append_nul
    (c rest : List α) :
    text nul (c ++ nul :: rest) = text nul c := by
  induction c with
  | nil => simp [text_cons]
  | cons x c ih =>
      rw [List.cons_append, text_cons, text_cons, ih]

theorem nul_notMem_text
    (b : List α) :
    nul ∉ text nul b := by
  induction b with
  | nil => simp
  | cons x b ih =>
      rw [text_cons]
      split
      · simp
      · next hx =>
          rw [List.mem_cons, not_or]
          exact ⟨fun hNul => hx hNul.symm, ih⟩

/- Bytes without `nul` are their own text. -/
theorem text_eq_self_iff
    (c : List α) :
    text nul c = c ↔ nul ∉ c := by
  constructor
  · intro hText
    rw [← hText]
    exact nul_notMem_text nul c
  · intro hNone
    induction c with
    | nil => rfl
    | cons x c ih =>
        rw [List.mem_cons, not_or] at hNone
        rw [text_cons, if_neg (fun hx => hNone.1 hx.symm),
          ih hNone.2]

@[simp] theorem text_text
    (b : List α) :
    text nul (text nul b) = text nul b :=
  (text_eq_self_iff nul _).mpr (nul_notMem_text nul b)

/- A `nul` ends the text of the buffer. -/
theorem exists_eq_text_append
    {b : List α}
    (hEnds : nul ∈ b) :
    ∃ rest, b = text nul b ++ nul :: rest := by
  induction b with
  | nil => cases hEnds
  | cons x b ih =>
      by_cases hx : x = nul
      · refine ⟨b, ?_⟩
        rw [text_cons, if_pos hx, hx, List.nil_append]
      · have hLater : nul ∈ b := by
          rcases List.mem_cons.mp hEnds with hNul | hLater
          · exact (hx hNul.symm).elim
          · exact hLater
        rcases ih hLater with ⟨rest, hRest⟩
        refine ⟨rest, ?_⟩
        rw [text_cons, if_neg hx, List.cons_append, ← hRest]

/- Printing gives `c` when `c` and a `nul` come first. -/
theorem cString_eq_some_iff
    (b c : List α) :
    cString nul b = some c ↔
      nul ∉ c ∧ ∃ rest, b = c ++ nul :: rest := by
  constructor
  · intro hPrint
    unfold cString at hPrint
    split at hPrint
    · next hEnds =>
        have hText : text nul b = c :=
          Option.some.inj hPrint
        rw [← hText]
        exact
          ⟨nul_notMem_text nul b,
            exists_eq_text_append nul hEnds⟩
    · cases hPrint
  · rintro ⟨hText, rest, rfl⟩
    have hEnds : nul ∈ c ++ nul :: rest := by simp
    rw [cString, if_pos hEnds, text_append_nul,
      (text_eq_self_iff nul c).mpr hText]

/-
  Text written without its end is printed back when a `nul`
  already stood behind it.
-/
theorem cString_overlay_iff
    {old c : List α}
    (hFits : c.length < old.length) :
    cString nul (overlay old (text nul c)) = some c ↔
      nul ∉ c ∧ old[c.length]? = some nul := by
  rw [cString_eq_some_iff]
  constructor
  · rintro ⟨hText, rest, hSplit⟩
    rw [(text_eq_self_iff nul c).mpr hText,
      overlay_eq_append (Nat.le_of_lt hFits)] at hSplit
    have hDrop := List.append_cancel_left hSplit
    refine ⟨hText, ?_⟩
    have hHead : (old.drop c.length)[0]? = some nul := by
      rw [hDrop]
      rfl
    rwa [List.getElem?_drop, Nat.add_zero] at hHead
  · rintro ⟨hText, hNul⟩
    refine ⟨hText, old.drop (c.length + 1), ?_⟩
    rw [(text_eq_self_iff nul c).mpr hText,
      overlay_eq_append (Nat.le_of_lt hFits)]
    rcases List.getElem?_eq_some_iff.mp hNul with
      ⟨hLt, hByte⟩
    rw [List.drop_eq_getElem_cons hLt, hByte]

end Lib

end Cs2520

------------------------------------------------------------
-- Pieces of a Stream
------------------------------------------------------------

namespace Cs2520

namespace Lib

variable {α : Type}

/- A stream in pieces of 1 to `size` elements each. -/
structure Cut
    (size : Nat)
    (stream : List α)
    (pieces : List (List α)) : Prop where
  whole : pieces.flatten = stream
  pos : ∀ p ∈ pieces, 0 < p.length
  fits : ∀ p ∈ pieces, p.length ≤ size

variable {size : Nat}

/- The pieces behind the first are cut as well. -/
theorem Cut.tail
    {stream p : List α}
    {pieces : List (List α)}
    (h : Cut size stream (p :: pieces)) :
    Cut size pieces.flatten pieces where
  whole := rfl
  pos := fun q hq => h.pos q (List.mem_cons_of_mem _ hq)
  fits := fun q hq => h.fits q (List.mem_cons_of_mem _ hq)

/-
  The pieces behind the first are the second part of the
  stream exactly when the first piece is as long as the first
  part, and then it is that part.
-/
theorem Cut.rest_eq_iff
    {front back p : List α}
    {pieces : List (List α)}
    (h : Cut size (front ++ back) (p :: pieces)) :
    pieces.flatten = back ↔ p.length = front.length := by
  have hWhole : p ++ pieces.flatten = front ++ back :=
    h.whole
  constructor
  · intro hRest
    rw [hRest] at hWhole
    exact congrArg List.length (List.append_cancel_right hWhole)
  · intro hLength
    exact (List.append_inj hWhole hLength).2

theorem Cut.head_eq
    {front back p : List α}
    {pieces : List (List α)}
    (h : Cut size (front ++ back) (p :: pieces))
    (hLength : p.length = front.length) :
    p = front :=
  (List.append_inj h.whole hLength).1

/- Longer parts make a longer stream. -/
theorem length_flatMap_le
    {γ : Type}
    {f g : γ → List α}
    {l : List γ}
    (hLe : ∀ x ∈ l, (g x).length ≤ (f x).length) :
    (l.flatMap g).length ≤ (l.flatMap f).length := by
  induction l with
  | nil => exact Nat.le_refl _
  | cons x l ih =>
      rcases List.forall_mem_cons.mp hLe with ⟨hHead, hTail⟩
      rw [List.flatMap_cons, List.flatMap_cons,
        List.length_append, List.length_append]
      exact Nat.add_le_add hHead (ih hTail)

/-
  Two streams of parts, those of one never shorter than those
  of the other, are the same only part by part.
-/
theorem flatMap_eq_iff
    {γ : Type}
    {f g : γ → List α}
    {l : List γ}
    (hLe : ∀ x ∈ l, (g x).length ≤ (f x).length) :
    l.flatMap f = l.flatMap g ↔ ∀ x ∈ l, f x = g x := by
  induction l with
  | nil => simp
  | cons x l ih =>
      rcases List.forall_mem_cons.mp hLe with ⟨hHead, hTail⟩
      have hRest := length_flatMap_le hTail
      rw [List.flatMap_cons, List.flatMap_cons,
        List.forall_mem_cons, ← ih hTail]
      constructor
      · intro hSame
        have hSum := congrArg List.length hSame
        rw [List.length_append, List.length_append] at hSum
        exact List.append_inj hSame (by omega)
      · rintro ⟨hFirst, hLater⟩
        rw [hFirst, hLater]

end Lib

end Cs2520

------------------------------------------------------------
-- Integers
------------------------------------------------------------

namespace Cs2520

namespace Lib

/- The four bytes of a 32-bit integer, lowest byte first. -/
def le32
    (x : Int) : List UInt8 :=
  let n := (x % 4294967296).toNat
  [UInt8.ofNat n, UInt8.ofNat (n / 256),
    UInt8.ofNat (n / 65536), UInt8.ofNat (n / 16777216)]

/- The signed 32-bit integer in the first four bytes. -/
def ofLe32 : List UInt8 → Int
  | b₀ :: b₁ :: b₂ :: b₃ :: _ =>
      let n : Int :=
        b₀.toNat + 256 * b₁.toNat + 65536 * b₂.toNat +
          16777216 * b₃.toNat
      if n < 2147483648 then n else n - 4294967296
  | _ => 0

@[simp] theorem length_le32
    (x : Int) :
    (le32 x).length = 4 := rfl

/- Four bytes are those of the integer read from them. -/
theorem le32_ofLe32
    {b : List UInt8}
    (hSize : 4 ≤ b.length) :
    le32 (ofLe32 b) = b.take 4 := by
  rcases b with _ | ⟨b₀, _ | ⟨b₁, _ | ⟨b₂, _ | ⟨b₃, rest⟩⟩⟩⟩
  case cons.cons.cons.cons =>
    have h₀ := b₀.toNat_lt
    have h₁ := b₁.toNat_lt
    have h₂ := b₂.toNat_lt
    have h₃ := b₃.toNat_lt
    obtain ⟨n, hN⟩ :
        ∃ n, n =
          b₀.toNat + 256 * b₁.toNat + 65536 * b₂.toNat +
            16777216 * b₃.toNat :=
      ⟨_, rfl⟩
    have hWrap :
        (ofLe32 (b₀ :: b₁ :: b₂ :: b₃ :: rest) %
          4294967296).toNat = n := by
      unfold ofLe32
      dsimp only
      split
      · omega
      · omega
    have hByte :
        ∀ (b : UInt8) (k : Nat),
          k % 256 = b.toNat → UInt8.ofNat k = b := by
      intro b k hK
      apply UInt8.toNat_inj.mp
      rw [UInt8.toNat_ofNat']
      exact hK
    simp only [le32, hWrap, List.take_succ_cons,
      List.take_zero]
    rw [hByte b₀ n (by omega), hByte b₁ (n / 256) (by omega),
      hByte b₂ (n / 65536) (by omega),
      hByte b₃ (n / 16777216) (by omega)]
  all_goals
    simp only [List.length_cons, List.length_nil] at hSize
    omega

/- The range of a signed 32-bit integer. -/
def InInt32
    (x : Int) : Prop :=
  -2147483648 ≤ x ∧ x < 2147483648

instance
    (x : Int) :
    Decidable (InInt32 x) := by
  unfold InInt32
  infer_instance

/- Conversion to a signed 32-bit integer. -/
def toInt32
    (x : Int) : Int :=
  (x + 2147483648) % 4294967296 - 2147483648

theorem toInt32_of_in
    {x : Int}
    (hx : InInt32 x) :
    toInt32 x = x := by
  rcases hx with ⟨hLow, hHigh⟩
  unfold toInt32
  omega

/- The result of a 32-bit operation that must not overflow. -/
def int32?
    (x : Int) : Option Int :=
  if InInt32 x then some x else none

theorem int32?_eq_some_iff
    {x y : Int} :
    int32? x = some y ↔ InInt32 x ∧ y = x := by
  unfold int32?
  split
  · next hIn => simp [hIn, eq_comm]
  · next hOut => simp [hOut]

theorem int32?_of_in
    {x : Int}
    (hx : InInt32 x) :
    int32? x = some x :=
  int32?_eq_some_iff.mpr ⟨hx, rfl⟩

end Lib

end Cs2520

/-
# Decoders over memory

A decoder reads bytes from a place in memory and keeps a count of the bytes that should be left, at which it may look or
not.  It gives a value, finds an error, or does something that has no meaning.

There are two judgements.  `Reads d post`: `d` finds no error, and when it gives a value, `post` holds for the value and
the bytes that were read.  `Yields d bs a`: where the bytes `bs` stand, `d` passes them and gives `a`, whatever follows.
Each has a rule for `pure`, for `>>=` and for a loop.

A decoder is bounded by a text if it finds an error in it or gives a value that does not depend on what follows, without
reading what follows.  For a decoder that finds no errors and reads a format this is the case exactly if the text begins
with a whole message (`bounded_iff`).
-/
import Mathlib.Tactic.Common

/-- What comes of a decoder. -/
inductive Outcome (α : Type) where
  | ok (a : α)
  | error
  | undefined
  deriving DecidableEq, Repr

open List

namespace Decoder

/-- Where a decoder is, and what it takes for the number of bytes that are left. -/
structure Cursor where
  pos : Nat
  len : UInt64
  deriving DecidableEq, Repr

end Decoder

open Decoder

def Decoder (α : Type) : Type := (Nat → UInt8) → Cursor → Outcome (α × Cursor)

namespace Decoder

instance : Monad Decoder where
  pure a := fun _ c => .ok (a, c)
  bind d f := fun m c =>
    match d m c with
    | .ok (a, c') => f a m c'
    | .error => .error
    | .undefined => .undefined

def undefined {α : Type} : Decoder α := fun _ _ => .undefined

/-- A loop that reads `n` values. -/
def many {α : Type} (d : Decoder α) : Nat → Decoder (List α)
  | 0 => pure []
  | n + 1 => do
    let a ← d
    let as ← many d n
    pure (a :: as)

/-! ## 1. Bytes in memory -/

/-- The `n` bytes from `pos` on. -/
def fetch (m : Nat → UInt8) (pos : Nat) : Nat → List UInt8
  | 0 => []
  | n + 1 => m pos :: fetch m (pos + 1) n

@[simp] theorem length_fetch (m : Nat → UInt8) : ∀ (pos n : Nat), (fetch m pos n).length = n
  | _, 0 => rfl
  | pos, n + 1 => congrArg (· + 1) (length_fetch m (pos + 1) n)

theorem fetch_add (m : Nat → UInt8) : ∀ (pos a b : Nat), fetch m pos (a + b) = fetch m pos a ++ fetch m (pos + a) b
  | pos, 0, b => by rw [Nat.zero_add, Nat.add_zero]; rfl
  | pos, a + 1, b => by
    have hadd : a + 1 + b = (a + b) + 1 := by omega
    have hpos : pos + (a + 1) = pos + 1 + a := by omega
    rw [hadd, hpos, fetch, fetch, fetch_add m (pos + 1) a b, cons_append]

/-- The bytes stand in memory from `pos` on. -/
def Holds (m : Nat → UInt8) (pos : Nat) (bs : List UInt8) : Prop := fetch m pos bs.length = bs

instance (m : Nat → UInt8) (pos : Nat) (bs : List UInt8) : Decidable (Holds m pos bs) :=
  inferInstanceAs (Decidable (_ = _))

theorem holds_fetch (m : Nat → UInt8) (pos n : Nat) : Holds m pos (fetch m pos n) := by rw [Holds, length_fetch]

@[simp] theorem holds_nil (m : Nat → UInt8) (pos : Nat) : Holds m pos [] := rfl

variable {m : Nat → UInt8} {pos : Nat} {bs bs' : List UInt8}

theorem holds_append : Holds m pos (bs ++ bs') ↔ Holds m pos bs ∧ Holds m (pos + bs.length) bs' := by
  rw [Holds, Holds, Holds, length_append, fetch_add]
  constructor
  · intro h
    exact append_inj h (length_fetch m pos _)
  · rintro ⟨h, h'⟩
    rw [h, h']

theorem Holds.of_prefix (h : Holds m pos bs') (hpre : bs <+: bs') : Holds m pos bs := by
  obtain ⟨rest, rfl⟩ := hpre
  exact (holds_append.mp h).1

/-- Of two texts at one place the shorter one is the beginning of the other. -/
theorem Holds.prefix_of_le (h : Holds m pos bs) (h' : Holds m pos bs') (hle : bs.length ≤ bs'.length) : bs <+: bs' := by
  obtain ⟨n, hn⟩ := Nat.exists_eq_add_of_le hle
  rw [Holds, hn, fetch_add, h] at h'
  exact ⟨_, h'⟩

/-- A memory with a text at its beginning. -/
def memory (bs : List UInt8) (fill : UInt8) : Nat → UInt8 := fun i => bs.getD i fill

theorem holds_memory (bs : List UInt8) (fill : UInt8) : Holds (memory bs fill) 0 bs := by
  have h : ∀ (before bs : List UInt8), Holds (memory (before ++ bs) fill) before.length bs := by
    intro before bs
    induction bs generalizing before with
    | nil => exact holds_nil _ _
    | cons b bs ih =>
      have hrest := ih (before ++ [b])
      rw [append_assoc, length_append] at hrest
      rw [Holds, length_cons, fetch]
      congr 1
      · simp [memory]
  exact h [] bs

/-! ## 2. What is decoded stands there -/

/-- The decoder finds no error, and what it gives is related to the bytes it passes. -/
def Reads {α : Type} (d : Decoder α) (post : α → List UInt8 → Prop) : Prop :=
  ∀ m c, match d m c with
    | .ok (a, c') => ∃ bs, post a bs ∧ Holds m c.pos bs ∧ c'.pos = c.pos + bs.length
    | .error => False
    | .undefined => True

section Reads

variable {α β : Type} {d : Decoder α} {f : α → Decoder β}

theorem Reads.mono {post post' : α → List UInt8 → Prop} (h : Reads d post) (himp : ∀ a bs, post a bs → post' a bs) :
    Reads d post' := by
  intro m c
  have hd := h m c
  cases hr : d m c with
  | ok r =>
    rw [hr] at hd
    obtain ⟨bs, hpost, hrest⟩ := hd
    exact ⟨bs, himp _ _ hpost, hrest⟩
  | error =>
    rw [hr] at hd
    exact hd
  | undefined => trivial

/-- What holds of every value that is read. -/
theorem Reads.of_ok {p : α → Prop} {c c' : Cursor} {a : α} (h : Reads d fun a _ => p a)
    (hok : d m c = .ok (a, c')) : p a := by
  have hd := h m c
  rw [hok] at hd
  obtain ⟨_, hp, -⟩ := hd
  exact hp

theorem Reads.pure {a : α} {post : α → List UInt8 → Prop} (h : post a []) : Reads (Pure.pure a) post :=
  fun m c => ⟨[], h, holds_nil m c.pos, rfl⟩

theorem Reads.undefined {post : α → List UInt8 → Prop} : Reads Decoder.undefined post := fun _ _ => trivial

theorem Reads.bind {p : α → List UInt8 → Prop} {post : β → List UInt8 → Prop} (hd : Reads d p)
    (hf : ∀ a bs, p a bs → Reads (f a) fun b bs' => post b (bs ++ bs')) : Reads (d >>= f) post := by
  intro m c
  have hfirst := hd m c
  show match (match d m c with
    | .ok (a, c') => f a m c'
    | .error => .error
    | .undefined => .undefined) with
    | .ok (b, c'') => ∃ bs, post b bs ∧ Holds m c.pos bs ∧ c''.pos = c.pos + bs.length
    | .error => False
    | .undefined => True
  cases hr : d m c with
  | ok r =>
    rw [hr] at hfirst
    obtain ⟨bs, hp, hholds, hpos⟩ := hfirst
    have hsecond := hf r.1 bs hp m r.2
    show match f r.1 m r.2 with
      | .ok (b, c'') => ∃ bs, post b bs ∧ Holds m c.pos bs ∧ c''.pos = c.pos + bs.length
      | .error => False
      | .undefined => True
    cases hr' : f r.1 m r.2 with
    | ok r' =>
      rw [hr'] at hsecond
      obtain ⟨bs', hpost, hholds', hpos'⟩ := hsecond
      refine ⟨bs ++ bs', hpost, holds_append.mpr ⟨hholds, hpos ▸ hholds'⟩, ?_⟩
      rw [hpos', hpos, length_append, Nat.add_assoc]
    | error =>
      rw [hr'] at hsecond
      exact hsecond
    | undefined => trivial
  | error =>
    rw [hr] at hfirst
    exact hfirst
  | undefined => trivial

section Form

variable {fits : α → Prop} {w : α → List UInt8} {post : β → List UInt8 → Prop}

/-- A first step that reads a value in its form. -/
theorem Reads.bind_eq (hd : Reads d fun a bs => bs = w a) (hf : ∀ a, Reads (f a) fun b bs => post b (w a ++ bs)) :
    Reads (d >>= f) post := by
  refine hd.bind ?_
  rintro a _ rfl
  exact hf a

theorem Reads.bind_fits (hd : Reads d fun a bs => fits a ∧ bs = w a)
    (hf : ∀ a, fits a → Reads (f a) fun b bs => post b (w a ++ bs)) : Reads (d >>= f) post := by
  refine hd.bind ?_
  rintro a _ ⟨ha, rfl⟩
  exact hf a ha

/-- A loop over values, each of which has a form of its own. -/
theorem Reads.many (hd : Reads d fun a bs => fits a ∧ bs = w a) : ∀ n : Nat,
    Reads (many d n) fun as bs => as.length = n ∧ (∀ a ∈ as, fits a) ∧ bs = as.flatMap w
  | 0 => Reads.pure ⟨rfl, by simp, rfl⟩
  | n + 1 => by
    refine hd.bind_fits fun a ha => (Reads.many hd n).bind ?_
    rintro as _ ⟨hlen, has, rfl⟩
    refine Reads.pure ⟨by rw [length_cons, hlen], ?_, by simp⟩
    simpa using ⟨ha, has⟩

end Form

end Reads

/-! ## 3. What stands there is decoded -/

/-- Where the bytes stand, the decoder passes them and gives the value. -/
def Yields {α : Type} (d : Decoder α) (bs : List UInt8) (a : α) : Prop :=
  ∀ m c, Holds m c.pos bs → ∃ c', d m c = .ok (a, c') ∧ c'.pos = c.pos + bs.length

section Yields

variable {α β : Type} {d : Decoder α} {f : α → Decoder β} {a : α} {b : β} {bs bs' : List UInt8}

theorem Yields.pure (a : α) : Yields (Pure.pure a) [] a := fun _ c _ => ⟨c, rfl, rfl⟩

theorem Yields.bind (hd : Yields d bs a) (hf : Yields (f a) bs' b) : Yields (d >>= f) (bs ++ bs') b := by
  intro m c hholds
  obtain ⟨hfirst, hsecond⟩ := holds_append.mp hholds
  obtain ⟨c', hr, hpos⟩ := hd m c hfirst
  obtain ⟨c'', hr', hpos'⟩ := hf m c' (hpos ▸ hsecond)
  refine ⟨c'', ?_, by rw [hpos', hpos, length_append, Nat.add_assoc]⟩
  show (match d m c with
    | .ok (a, c') => f a m c'
    | .error => .error
    | .undefined => .undefined) = _
  rw [hr]
  exact hr'

/-- The last step of a decoder. -/
theorem Yields.last {g : α → β} (hd : Yields d bs a) (hb : g a = b) :
    Yields (d >>= fun a => Pure.pure (g a)) (bs ++ []) b :=
  hb ▸ hd.bind (Yields.pure (g a))

theorem Yields.bind_pure {g : α → β} (hd : Yields d bs a) (hb : g a = b) :
    Yields (d >>= fun a => Pure.pure (g a)) bs b := by
  have h := hd.last hb
  rwa [append_nil] at h

theorem Yields.many {w : α → List UInt8} : ∀ {as : List α}, (∀ a ∈ as, Yields d (w a) a) →
    Yields (many d as.length) (as.flatMap w) as
  | [], _ => Yields.pure []
  | _ :: _, h =>
    (h _ mem_cons_self).bind ((Yields.many fun a ha => h a (mem_cons_of_mem _ ha)).bind_pure rfl)

end Yields

/-! ## 4. Decoders that are bounded by their text -/

/-- The decoder rejects the text, or it reads nothing behind it and what it gives does not depend on what follows. -/
def Bounded {α : Type} (d : Decoder α) (body : List UInt8) : Prop :=
  (∀ m, Holds m 0 body → d m ⟨0, .ofNat body.length⟩ = .error) ∨
    ∃ a, ∀ m, Holds m 0 body → ∃ c, d m ⟨0, .ofNat body.length⟩ = .ok (a, c) ∧ c.pos ≤ body.length

/-- **A decoder without errors is bounded exactly by the texts that begin with a message.** -/
theorem bounded_iff {α μ : Type} {d : Decoder α} {fits : μ → Prop} {wire : μ → List UInt8} {value : μ → α}
    {body : List UInt8} (hreads : Reads d fun a bs => ∃ x, fits x ∧ bs = wire x ∧ a = value x)
    (hyields : ∀ x, fits x → Yields d (wire x) (value x)) : Bounded d body ↔ ∃ x, fits x ∧ wire x <+: body := by
  constructor
  · have hmem := holds_memory body 0
    have hd := hreads (memory body 0) ⟨0, .ofNat body.length⟩
    rintro (herror | ⟨a, hok⟩)
    · rw [herror _ hmem] at hd
      exact hd.elim
    · obtain ⟨c, hr, hle⟩ := hok _ hmem
      rw [hr] at hd
      obtain ⟨bs, ⟨x, hfits, rfl, -⟩, hholds, hpos⟩ := hd
      rw [Nat.zero_add] at hpos
      exact ⟨x, hfits, hholds.prefix_of_le hmem (hpos ▸ hle)⟩
  · rintro ⟨x, hfits, hpre⟩
    refine .inr ⟨value x, fun m hbody => ?_⟩
    obtain ⟨c, hr, hpos⟩ := hyields x hfits m ⟨0, .ofNat body.length⟩ (hbody.of_prefix hpre)
    rw [Nat.zero_add] at hpos
    exact ⟨c, hr, hpos ▸ hpre.length_le⟩

end Decoder

/-
# Reading a file with the C library

A reader takes characters from the front of what is left of a file.  `fgets` takes a line, but at most
`size - 1` characters; the other conversions are those of `fscanf`.

`Reads` says that a reader takes exactly a text that stands before a rest, in a file that is shorter than
`size`; a sequence of readers takes a sequence of texts (`Reads.bind`).  `Gives` says what is known of a value
that was read, whatever the file was.
-/
import Gct.Lib.Format

namespace FileReader

open CText List

/-- A reader of a file that fails with an error `ε`. -/
abbrev Reader (ε : Type) := StateT (List Char) (Except ε)

variable {ε α β : Type} (e : ε) (size : Nat)

/-! ## 1. Readers -/

/-- The characters up to the first newline, and the newline. -/
def lineOf : List Char → List Char
  | [] => []
  | c :: s => if c = '\n' then [c] else c :: lineOf s

/-- `fgets` with a buffer of `size` characters. -/
def fgets : Reader ε (List Char) := fun file =>
  match lineOf (file.take (size - 1)) with
  | [] => .error e
  | line => .ok (line, file.drop line.length)

/-- A line without the last character of what `fgets` has read. -/
def readText : Reader ε (List Char) := do
  let buffer ← fgets e size
  return buffer.dropLast

/-- `%[^\n]%*c` -/
def scanLine : Reader ε (List Char) := fun file =>
  match file.takeWhile (· ≠ '\n') with
  | [] => .error e
  | text => .ok (text, (file.dropWhile (· ≠ '\n')).tail)

/-- `%d` -/
def scanDecimal : Reader ε Int := fun file =>
  match scanInt (-2 ^ 31) (2 ^ 31 - 1) file with
  | none => .error e
  | some (n, file) => .ok (n, file)

/-- `%s` -/
def scanWord : Reader ε (List Char) := fun file =>
  match (file.dropWhile isSpace).takeWhile (!isSpace ·) with
  | [] => .error e
  | word => .ok (word, (file.dropWhile isSpace).dropWhile (!isSpace ·))

/-- `%*[\n]` -/
def skipNewlines : Reader ε Unit := fun file => .ok ((), file.dropWhile (· = '\n'))

/-! ## 2. Taking a text -/

/-- The reader takes `text` before `rest`, and gives `a`. -/
def Reads (r : Reader ε α) (text : List Char) (a : α) (rest : List Char) : Prop :=
  (text ++ rest).length < size → r (text ++ rest) = .ok (a, rest)

variable {size : Nat} {rest : List Char}

variable {r : Reader ε α} {a : α} {e : ε} {text : List Char} {f : α → Reader ε β} {b : β} {line : List Char}

theorem bind_of_ok {file file' : List Char} (h : r file = .ok (a, file'))
    (f : α → Reader ε β) : (r >>= f) file = f a file' := by
  change (r file >>= fun p => f p.1 p.2) = f a file'
  rw [h]
  rfl

theorem bind_of_error {file : List Char} (h : r file = .error e) (f : α → Reader ε β) : (r >>= f) file = .error e := by
  change (r file >>= fun p => f p.1 p.2) = .error e
  rw [h]
  rfl

theorem Reads.pure (a : α) : Reads size (Pure.pure a : Reader ε α) [] a rest := fun _ => rfl

theorem Reads.bind_eq (h : Reads size r text a rest)
    (hlt : (text ++ rest).length < size) (f : α → Reader ε β) : (r >>= f) (text ++ rest) = f a rest :=
  bind_of_ok (h hlt) f

theorem length_lt_of_append (h : (text ++ rest).length < size) : rest.length < size :=
  Nat.lt_of_le_of_lt (suffix_append text rest).length_le h

theorem Reads.append {text text' : List Char}
    (h : Reads size r text a (text' ++ rest)) (h' : Reads size (f a) text' b rest) :
    Reads size (r >>= f) (text ++ text') b rest := by
  intro hlt
  rw [append_assoc] at hlt ⊢
  rw [h.bind_eq hlt]
  exact h' (length_lt_of_append hlt)

/-- A sequence of readers takes a sequence of texts. -/
theorem Reads.bind {texts : List (List Char)} (h : Reads size r text a (texts.flatten ++ rest))
    (h' : Reads size (f a) texts.flatten b rest) : Reads size (r >>= f) (text :: texts).flatten b rest :=
  h.append h'

/-- A reader that takes nothing comes before. -/
theorem Reads.bind_nil (h : Reads size r [] a (text ++ rest)) (h' : Reads size (f a) text b rest) :
    Reads size (r >>= f) text b rest := by
  intro hlt
  have hr : r (text ++ rest) = .ok (a, text ++ rest) := h hlt
  rw [bind_of_ok hr]
  exact h' hlt

section

variable (h : '\n' ∉ line)

include h

theorem lineOf_append (rest : List Char) : lineOf (line ++ '\n' :: rest) = line ++ ['\n'] := by
  induction line with
  | nil => rfl
  | cons c line ih =>
    rw [mem_cons, not_or] at h
    rw [cons_append, lineOf, if_neg (Ne.symm h.1), ih h.2]
    rfl

theorem fgets_of_length_lt (hlen : line.length + 1 < size) :
    fgets e size (line ++ '\n' :: rest) = .ok (line ++ ['\n'], rest) := by
  have htake : (line ++ '\n' :: rest).take (size - 1) = line ++ '\n' :: rest.take (size - 1 - (line.length + 1)) := by
    rw [take_append, take_of_length_le (by omega)]
    obtain ⟨n, hn⟩ : ∃ n, size - 1 - line.length = n + 1 := ⟨size - 1 - line.length - 1, by omega⟩
    rw [hn, take_succ_cons, ← Nat.sub_sub, hn, Nat.add_sub_cancel]
  have hdrop : (line ++ '\n' :: rest).drop (line ++ ['\n']).length = rest := by
    rw [show line ++ '\n' :: rest = (line ++ ['\n']) ++ rest by rw [append_assoc]; rfl, drop_left]
  unfold fgets
  rw [htake, lineOf_append h]
  cases line with
  | nil => rfl
  | cons c line => exact congrArg (fun file => Except.ok (c :: line ++ ['\n'], file)) hdrop

theorem reads_fgets : Reads size (fgets e size) (line ++ ['\n']) (line ++ ['\n']) rest := by
  intro hlt
  rw [append_assoc] at hlt ⊢
  refine fgets_of_length_lt h (Nat.lt_of_le_of_lt ?_ hlt)
  rw [length_append, singleton_append, length_cons]
  omega

theorem reads_readText : Reads size (readText e size) (line ++ ['\n']) line rest := by
  intro hlt
  rw [readText, bind_of_ok (reads_fgets h hlt)]
  exact congrArg (fun text => Except.ok (text, rest)) dropLast_concat

end

theorem reads_scanLine (hne : line ≠ []) (h : '\n' ∉ line) : Reads size (scanLine e) (line ++ ['\n']) line rest := by
  intro _
  have hall : ∀ c ∈ line, decide (c ≠ '\n') = true := fun c hc => decide_eq_true fun heq => h (heq ▸ hc)
  have htake : (line ++ ['\n'] ++ rest).takeWhile (· ≠ '\n') = line := by
    rw [append_assoc, takeWhile_append_of_pos hall, singleton_append, takeWhile_cons_of_neg (by decide), append_nil]
  have hdrop : (line ++ ['\n'] ++ rest).dropWhile (· ≠ '\n') = '\n' :: rest := by
    rw [append_assoc, dropWhile_append_of_pos hall, singleton_append, dropWhile_cons_of_neg (by decide)]
  unfold scanLine
  rw [htake, hdrop]
  cases line with
  | nil => exact absurd rfl hne
  | cons c line => rfl

/-- A word is read up to the white space behind it. -/
theorem scanWord_of_word {word : List Char} (hne : word ≠ []) (hword : ∀ c ∈ word, isSpace c = false)
    {t : List Char} (ht : ∃ c t', t = c :: t' ∧ isSpace c = true) : scanWord e (' ' :: (word ++ t)) = .ok (word, t) := by
  obtain ⟨c, t', rfl, hc⟩ := ht
  have hall : ∀ d ∈ word, (!isSpace d) = true := fun d hd => by rw [hword d hd]; rfl
  have htake : (c :: t').takeWhile (!isSpace ·) = [] := takeWhile_cons_of_neg (by rw [hc]; decide)
  have hdrop : (c :: t').dropWhile (!isSpace ·) = c :: t' := dropWhile_cons_of_neg (by rw [hc]; decide)
  have hspaces : (' ' :: (word ++ c :: t')).dropWhile isSpace = word ++ c :: t' := by
    rw [dropWhile_cons_of_pos rfl, Format.dropWhile_noSpace (Format.noSpace_of_word hne hword _)]
  unfold scanWord
  rw [hspaces, takeWhile_append_of_pos hall, htake, append_nil, dropWhile_append_of_pos hall, hdrop]
  cases word with
  | nil => exact absurd rfl hne
  | cons d word => rfl

/-- There is no newline to skip. -/
theorem dropNewlines_of_noSpace {s : List Char} (h : Format.NoSpace s) : s.dropWhile (· = '\n') = s := by
  cases s with
  | nil => rfl
  | cons c s =>
    have hc : c ≠ '\n' := by
      rintro rfl
      exact absurd (h _ rfl) (by decide)
    exact dropWhile_cons_of_neg fun heq => hc (of_decide_eq_true heq)

/-! ## 3. What is known of a value -/

/-- Whatever is read satisfies `P`. -/
def Gives (r : Reader ε α) (P : α → Prop) : Prop := ∀ file a file', r file = .ok (a, file') → P a

theorem bind_eq_ok {file file' : List Char}
    (h : (r >>= f) file = .ok (b, file')) : ∃ a file₁, r file = .ok (a, file₁) ∧ f a file₁ = .ok (b, file') := by
  change (r file >>= fun p => f p.1 p.2) = .ok (b, file') at h
  cases hr : r file with
  | error e =>
    rw [hr] at h
    cases h
  | ok p =>
    rw [hr] at h
    exact ⟨p.1, p.2, rfl, h⟩

theorem Gives.pure {P : α → Prop} (h : P a) : Gives (Pure.pure a : Reader ε α) P := by
  intro file b file' hb
  cases hb
  exact h

theorem Gives.bind {P : α → Prop} {Q : β → Prop} (h : Gives r P) (h' : ∀ a, P a → Gives (f a) Q) : Gives (r >>= f) Q := by
  intro file b file' hb
  obtain ⟨a, file₁, ha, hf⟩ := bind_eq_ok hb
  exact h' a (h _ _ _ ha) _ _ _ hf

theorem Gives.bind' {Q : β → Prop} (h' : ∀ a, Gives (f a) Q) : Gives (r >>= f) Q :=
  Gives.bind (P := fun _ => True) (fun _ _ _ _ => trivial) fun a _ => h' a

/-- A line has no newline but its last character. -/
theorem notMem_dropLast_lineOf (s : List Char) : '\n' ∉ (lineOf s).dropLast := by
  induction s with
  | nil => exact not_mem_nil
  | cons c s ih =>
    rw [lineOf]
    split
    · exact not_mem_nil
    next hc =>
      cases hline : lineOf s with
      | nil => exact not_mem_nil
      | cons d line =>
        rw [hline] at ih
        rw [dropLast_cons_cons, mem_cons, not_or]
        exact ⟨Ne.symm hc, ih⟩

theorem gives_readText : Gives (readText e size) fun text => '\n' ∉ text := by
  intro file text file' h
  obtain ⟨buffer, file₁, hbuffer, h⟩ := bind_eq_ok h
  unfold fgets at hbuffer
  split at hbuffer
  · cases hbuffer
  · cases hbuffer
    cases h
    exact notMem_dropLast_lineOf _

theorem gives_scanLine : Gives (scanLine e) fun text => '\n' ∉ text := by
  intro file text file' h
  unfold scanLine at h
  split at h
  · cases h
  · cases h
    intro hmem
    have hne := mem_takeWhile_imp hmem
    exact absurd hne (by decide)

theorem gives_scanWord : Gives (scanWord e) fun word => word ≠ [] ∧ ∀ c ∈ word, isSpace c = false := by
  intro file word file' h
  unfold scanWord at h
  split at h
  · cases h
  next hne =>
    cases h
    refine ⟨hne, fun c hc => ?_⟩
    have hword := mem_takeWhile_imp hc
    rwa [Bool.not_eq_true'] at hword

end FileReader

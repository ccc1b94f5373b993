/-
# `globus_gsc_string_to_959`: writing a reply

The server writes its messages as replies of RFC 959.  Each line of the message becomes a line of the
reply; if there are several, the first one gets the code and a dash in front, the others the code and a
dash or the text `preline`, and a final line with the code and a space is added.

The lines of the message end at LF, those of the reply at CR LF.  Nothing goes wrong with a CR in the
message: no LF follows it in a line, and if it stands at the end, the CR LF that is added comes after
it.  With the code or a space in front no line but the last one is final, so what is written is one
reply for the client (`stringTo959_one_reply`).
-/
import Gct.Reply.EndOfReply

namespace Gct

open CText Lines List

/-! ## 1. The program -/

/-- The loop over the lines of the message: the text so far and the number of lines. -/
def stringTo959Loop (prepad startPtr msg : List Char) (ctr : Nat) : List Char × Nat :=
  match _h : strchr '\n' startPtr with
  | some endPtr =>
    let line := startPtr.takeWhile (· ≠ '\n')
    let msg := msg ++ (if ctr > 0 then prepad else []) ++ line ++ ['\r', '\n']
    if endPtr.tail = [] then (msg, ctr + 1)
    else stringTo959Loop prepad endPtr.tail msg (ctr + 1)
  | none => (msg ++ (if ctr > 0 then prepad else []) ++ startPtr ++ ['\r', '\n'], ctr + 1)
termination_by startPtr.length
decreasing_by exact length_of_strchr _h

/-- `globus_gsc_string_to_959` -/
def stringTo959 (code : Int) (inStr preline : Option (List Char)) : List Char :=
  match inStr with
  | none => printInt code ++ " .\r\n".toList
  | some inStr =>
    let msg := printInt code ++ ['-']
    let prepad := preline.getD msg
    let (msg, ctr) := stringTo959Loop prepad inStr msg 0
    if ctr = 1 then msg.set 3 ' ' else msg ++ printInt code ++ " End.\r\n".toList

/-! ## 2. What is written -/

/-- The lines of the message come out one by one, all but the first with `prepad`. -/
theorem stringTo959Loop_eq (prepad startPtr msg : List Char) (ctr : Nat) :
    ∃ p ps, (∀ l ∈ p :: ps, '\n' ∉ l) ∧ stringTo959Loop prepad startPtr msg ctr
      = (msg ++ (if ctr > 0 then prepad else []) ++ join (p :: ps.map (prepad ++ ·)), ctr + 1 + ps.length) := by
  fun_induction stringTo959Loop prepad startPtr msg ctr with
  | case1 startPtr msg ctr endPtr h line msg' hend =>
    have hline : '\n' ∉ line := fun hc => by simpa using mem_takeWhile_imp hc
    exact ⟨line, [], by simpa using hline, by simp [msg']⟩
  | case2 startPtr msg ctr endPtr h line msg' hend ih =>
    have hline : '\n' ∉ line := fun hc => by simpa using mem_takeWhile_imp hc
    obtain ⟨p, ps, hps, heq⟩ := ih
    refine ⟨line, p :: ps, ?_, ?_⟩
    · rintro l (_ | ⟨_, hl⟩)
      · exact hline
      · exact hps l hl
    · rw [heq]
      simp [msg']
      omega
  | case3 startPtr msg ctr h =>
    exact ⟨startPtr, [], by simpa using strchr_eq_none_iff.mp h, by simp⟩

/-- A code with a first digit from 1 to 5. -/
theorem printInt_code {code : Int} (h1 : 100 ≤ code) (h2 : code < 600) :
    ∃ a b c, printInt code = [a, b, c] ∧ a.isDigit ∧ b.isDigit ∧ c.isDigit ∧ a ≠ '6' := by
  obtain ⟨n, rfl⟩ := Int.eq_ofNat_of_zero_le (show 0 ≤ code by omega)
  have hprint : printInt n = [Nat.digitChar (n / 100), Nat.digitChar (n / 10 % 10), Nat.digitChar (n % 10)] := by
    rw [printInt, if_neg (by omega), Int.toNat_natCast, printUnsigned,
      Nat.toDigits_of_base_le (by decide) (by omega), Nat.toDigits_of_base_le (by decide) (by omega),
      Nat.toDigits_of_lt_base (by omega), Nat.div_div_eq_div_mul]
    rfl
  have hfirst : ∀ d < 6, Nat.digitChar d ≠ '6' := by decide
  refine ⟨_, _, _, hprint, ?_, ?_, ?_, hfirst _ (by omega)⟩
  all_goals
    rw [Nat.isDigit_digitChar]
    exact decide_eq_true (by omega)

section Written

variable {code : Int} {preline : Option (List Char)}

/-- The reply with the code in front of its final line. -/
def codeReply (h1 : 100 ≤ code) (h2 : code < 600) (front : List (List Char)) (text : List Char)
    (hfront : ∀ l ∈ front, '\n' ∉ l ∧ CodeLine ' ' l = false)
    (hhead : ∀ l ∈ front.head?, CodeLine '-' l) (htext : '\n' ∉ text) : Reply where
  front := front
  last := printInt code ++ ' ' :: text
  front_noCrlf := fun l hl => noCrlf_of_notMem (hfront l hl).1
  front_open := fun l hl => (hfront l hl).2
  front_head := hhead
  last_noCrlf := by
    have hcode : '\n' ∉ printInt code := not_mem_printInt (by decide) (by decide)
    exact noCrlf_of_notMem (by simp [hcode, htext])
  last_final := by
    obtain ⟨a, b, c, heq, ha, hb, hc, -⟩ := printInt_code h1 h2
    simp [heq, CodeLine, ha, hb, hc]
  last_clear := by
    obtain ⟨a, b, c, heq, -, -, -, h6⟩ := printInt_code h1 h2
    simpa [heq] using h6

section

variable (h1 : 100 ≤ code) (h2 : code < 600)

include h1 h2

theorem codeReply_code {front : List (List Char)}
    {text : List Char} (hfront : ∀ l ∈ front, '\n' ∉ l ∧ CodeLine ' ' l = false)
    (hhead : ∀ l ∈ front.head?, CodeLine '-' l) (htext : '\n' ∉ text) :
    (codeReply h1 h2 front text hfront hhead htext).code = code := by
  have hscan : scanCode (printInt code ++ ' ' :: text) = some code := by
    rw [scanCode, scanInt_printInt (by omega) (by omega) (noDigit_cons.mpr (by decide))]
    rfl
  rw [Reply.code, codeReply, hscan]
  rfl

/-- A line with the code and a dash in front. -/
theorem codeLine_dash (p : List Char) :
    CodeLine '-' (printInt code ++ ['-'] ++ p) ∧ CodeLine ' ' (printInt code ++ ['-'] ++ p) = false := by
  obtain ⟨a, b, c, heq, ha, hb, hc, -⟩ := printInt_code h1 h2
  simp [heq, CodeLine, ha, hb, hc]

/-- Neither the code and a dash nor a space in front of a line makes it a final one. -/
theorem codeLine_prepad (hpre : preline = none ∨ preline = some [' ']) {p : List Char} (hp : '\n' ∉ p) :
    '\n' ∉ preline.getD (printInt code ++ ['-']) ++ p
      ∧ CodeLine ' ' (preline.getD (printInt code ++ ['-']) ++ p) = false := by
  rcases hpre with rfl | rfl
  · have hcode : '\n' ∉ printInt code := not_mem_printInt (by decide) (by decide)
    exact ⟨by simp [hcode, hp], (codeLine_dash h1 h2 p).2⟩
  · refine ⟨by simp [hp], ?_⟩
    match p with
    | [] => rfl
    | [_] => rfl
    | [_, _] => rfl
    | _ :: _ :: _ :: _ => rfl

/-- **What is written is a reply with the code.** -/
theorem stringTo959_eq_render (inStr : Option (List Char)) (hpre : preline = none ∨ preline = some [' ']) :
    ∃ r : Reply, stringTo959 code inStr preline = r.render ∧ r.code = code := by
  cases inStr with
  | none =>
    refine ⟨codeReply h1 h2 [] ['.'] (by simp) (by simp) (by decide), ?_, codeReply_code _ _ _ _ _⟩
    simp [stringTo959, Reply.render, codeReply]
  | some inStr =>
    obtain ⟨p, ps, hps, heq⟩ := stringTo959Loop_eq (preline.getD (printInt code ++ ['-'])) inStr
      (printInt code ++ ['-']) 0
    simp only [stringTo959, heq]
    cases ps with
    | nil =>
      -- one line: the dash is replaced
      refine ⟨codeReply h1 h2 [] p (by simp) (by simp) (hps p (by simp)), ?_, codeReply_code _ _ _ _ _⟩
      obtain ⟨a, b, c, hprint, -⟩ := printInt_code h1 h2
      simp [Reply.render, codeReply, hprint]
    | cons q ps =>
      have hfront : ∀ l ∈ (printInt code ++ ['-'] ++ p) :: (q :: ps).map (preline.getD (printInt code ++ ['-']) ++ ·),
          '\n' ∉ l ∧ CodeLine ' ' l = false := by
        refine forall_mem_cons.mpr ⟨codeLine_prepad h1 h2 (.inl rfl) (hps p (by simp)), ?_⟩
        refine forall_mem_map.mpr fun x hx => ?_
        exact codeLine_prepad h1 h2 hpre (hps x (mem_cons_of_mem _ hx))
      refine ⟨codeReply h1 h2 _ "End.".toList hfront ?_ (by decide), ?_, codeReply_code _ _ _ _ _⟩
      · simp only [head?_cons, Option.mem_some_iff]
        rintro l rfl
        exact (codeLine_dash h1 h2 p).1
      · simp [Reply.render, codeReply]

end

/-- **The client finds one reply in what the server writes**, with the code, its end at the end of the
text, and nothing in any part of it that breaks off earlier. -/
theorem stringTo959_one_reply (h1 : 100 ≤ code) (h2 : code < 600) (inStr : Option (List Char))
    {preline : Option (List Char)} (hpre : preline = none ∨ preline = some [' '])
    (unwrap : List Char → Option (List Char)) (response : Response) (hint : Nat) :
    (response.responseBuffer = stringTo959 code inStr preline →
      ∃ response', response.endOfReply unwrap hint
          = .ok ((stringTo959 code inStr preline).length + 1, response')
        ∧ response'.responseBuffer = stringTo959 code inStr preline ++ [nul]
        ∧ response'.code = code)
    ∧ (response.responseBuffer <+: stringTo959 code inStr preline →
        response.responseBuffer ≠ stringTo959 code inStr preline →
      response.endOfReply unwrap hint = .ok (0, response)) := by
  obtain ⟨r, hr, hcode⟩ := stringTo959_eq_render h1 h2 inStr hpre
  rw [hr]
  constructor
  · intro hbuf
    refine ⟨response.found r [], ?_, rfl, hcode⟩
    refine endOfReply_render unwrap (by rw [hbuf, append_nil]) ?_
    rw [append_nil]
    exact Nat.lt_or_ge hint r.render.length
  · intro hp hne
    exact endOfReply_of_prefix unwrap hp (hp.length_le.lt_of_ne fun h => hne (hp.eq_of_length h)) hint

/-- A message with a CR before an LF and with a line that looks like a final one. -/
theorem stringTo959_one_reply_final_line : ∃ response', (Response.mk 0 .unknownReply
        (stringTo959 451 (some "a\r\n226 b\n".toList) none) 200).endOfReply (fun _ => none) 0
      = .ok ((stringTo959 451 (some "a\r\n226 b\n".toList) none).length + 1, response')
      ∧ response'.code = 451 := by
  have h1 : (100 : Int) ≤ 451 := by decide
  have h2 : (451 : Int) < 600 := by decide
  obtain ⟨response', h, -, hcode⟩ := (stringTo959_one_reply h1 h2 (some "a\r\n226 b\n".toList)
    (.inl rfl) (fun _ => none) ⟨0, .unknownReply, _, 200⟩ 0).1 rfl
  exact ⟨response', h, hcode⟩

end Written

end Gct

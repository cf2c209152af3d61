import Mathlib.Data.Int.Init
import Tlm.Block
import Tlm.CString

/-!
# Answering PAM (`tlm-auth-session.c`, `tlm-utils.c`)

PAM asks for the user's name and password through a conversation function: it is
given a list of messages and returns a list of answers, each in memory of its own
that PAM frees. Strings are lists of bytes here, since what matters is how long they
are and where the bytes go.

There are two such functions. Both copy the credential with
`strndup (…, PAM_MAX_RESP_SIZE - 1)`, which allocates **what it copies and one byte
for the terminator**. `_auth_session_pam_conversation_cb` then writes a terminator of
its own at index `PAM_MAX_RESP_SIZE - 1`, as one would after a copy into a buffer of
that fixed size; `func_conv` does not. The extra write lands inside the block only if
the credential is at least that long, which no real one is (`conversation_iff`). The
string PAM gets to see is right in any case.
-/

namespace Tlm

/-! ## Copies of strings -/

/-- `strndup (s, n)`: at most `n` bytes of the string, and a terminator. -/
def strndup (s : List UInt8) (n : ℕ) : Block UInt8 :=
  let copied := (cstring s).take n
  (Block.alloc (copied.length + 1) 0).fill 0 (copied ++ [0])

section

variable {s : List UInt8} {n : ℕ}

@[simp] theorem size_strndup : (strndup s n).size = min n (cstring s).length + 1 := by
  simp [strndup]

theorem inBounds_strndup : (strndup s n).InBounds := by
  rw [strndup, Block.inBounds_fill]
  exact ⟨Block.inBounds_alloc _, fun _ => by simp⟩

theorem cells_strndup : (strndup s n).cells = (cstring s).take n ++ [0] := by
  rw [strndup, Block.cells_fill (by simp)]
  simp [Block.alloc]

/-- What a copy holds is what was copied. -/
theorem cstring_cells_strndup : cstring (strndup s n).cells = (cstring s).take n := by
  have hall : ∀ c ∈ (cstring s).take n, decide (c ≠ 0) = true := by
    intro c hc
    simpa using mem_cstring_ne (List.mem_of_mem_take hc)
  rw [cells_strndup, cstring, List.takeWhile_append_of_pos hall]
  simp

end

/-! ## Messages and answers -/

/-- `msg_style`. -/
inductive PamStyle : Type where
  /-- `PAM_PROMPT_ECHO_OFF` -/
  | promptEchoOff
  /-- `PAM_PROMPT_ECHO_ON` -/
  | promptEchoOn
  /-- `PAM_ERROR_MSG` -/
  | errorMsg
  /-- `PAM_TEXT_INFO` -/
  | textInfo
  /-- any other number -/
  | other (style : ℤ)
  deriving DecidableEq, Repr

/-- A `struct pam_message`. -/
structure PamMessage where
  /-- `msg_style` -/
  msgStyle : PamStyle
  /-- `msg` -/
  msg : List UInt8
  deriving DecidableEq, Repr

/-- A `struct pam_response`. -/
structure PamResponse where
  /-- `resp`, `none` for `NULL` -/
  resp : Option (Block UInt8)
  /-- `resp_retcode` -/
  respRetcode : ℤ
  deriving DecidableEq, Repr

/-- `PAM_SUCCESS`. -/
def pamSuccess : ℤ := 0

/-- `PAM_CONV_ERR`. -/
def pamConvErr : ℤ := 19

/-- `PAM_MAX_RESP_SIZE`. -/
def pamMaxRespSize : ℕ := 512

namespace PamMessage

/-- A prompt for the user's name: it is echoed, and starts with `login`. -/
def isLoginPrompt (m : PamMessage) : Bool :=
  m.msgStyle = .promptEchoOn && (asciiBytes "login").isPrefixOf m.msg

/-- A prompt for the password: it is not echoed, and starts with `Password`. -/
def isPasswordPrompt (m : PamMessage) : Bool :=
  m.msgStyle = .promptEchoOff && (asciiBytes "Password").isPrefixOf m.msg

/-- The body of the loop both functions have: the answer to one message, with `dup`
for the copy of the credential. -/
def respond (dup : List UInt8 → Option (Block UInt8)) (username password : List UInt8)
    (m : PamMessage) : PamResponse :=
  if m.isLoginPrompt then ⟨dup username, pamSuccess⟩
  else if m.isPasswordPrompt then ⟨dup password, pamSuccess⟩
  else ⟨none, pamSuccess⟩

end PamMessage

/-- `strndup` as the functions call it; `mem` says whether there is memory. -/
def copyCredential (mem : Bool) (s : List UInt8) : Option (Block UInt8) :=
  if mem then some (strndup s (pamMaxRespSize - 1)) else none

/-- `_auth_session_pam_conversation_cb`: what it returns and the answers. `mem` says for
each message whether there is memory for a copy; a `NULL` credential is empty. -/
def authSessionPamConversationCb (username password : Option (List UInt8)) (mem : ℕ → Bool)
    (msgs : List PamMessage) : ℤ × List PamResponse :=
  let luname := username.getD []
  let lpasswd := password.getD []
  (pamSuccess, msgs.mapIdx fun i m => m.respond
    (fun s => (copyCredential (mem i) s).map fun resp => resp.write (pamMaxRespSize - 1) 0)
    luname lpasswd)

/-- `func_conv`. -/
def funcConv (username password : List UInt8) (mem : ℕ → Bool) (msgs : List PamMessage) :
    ℤ × List PamResponse :=
  if msgs.length ≤ 0 then (pamConvErr, [])
  else (pamSuccess, msgs.mapIdx fun i m => m.respond (copyCredential (mem i)) username password)

/-! ## Contents and bounds -/

/-- The answer to a message is a prefix of what it asks for, short enough for PAM, or
`NULL`; and every byte was written inside the answer's own memory. -/
structure PamResponse.Fits (username password : List UInt8) (m : PamMessage) (r : PamResponse) :
    Prop where
  contents : ∀ b, r.resp = some b →
    (m.isLoginPrompt = true ∧ cstring b.cells = (cstring username).take (pamMaxRespSize - 1)) ∨
    (m.isPasswordPrompt = true ∧ cstring b.cells = (cstring password).take (pamMaxRespSize - 1))
  inBounds : ∀ b, r.resp = some b → b.InBounds

/-- Every message has its answer, and every answer fits. -/
def AnswersFit (username password : List UInt8) (msgs : List PamMessage)
    (rs : List PamResponse) : Prop :=
  rs.length = msgs.length ∧
    ∀ (i : ℕ) m (r : PamResponse), msgs[i]? = some m → rs[i]? = some r → r.Fits username password m

section

variable {username password : List UInt8} {m : PamMessage}
  {dup : List UInt8 → Option (Block UInt8)}

/-- The two kinds of prompts exclude each other. -/
theorem PamMessage.isPasswordPrompt_eq_false (h : m.isLoginPrompt = true) :
    m.isPasswordPrompt = false := by
  simp only [isLoginPrompt, Bool.and_eq_true, decide_eq_true_eq] at h
  simp [isPasswordPrompt, h.1]

/-- An answer fits exactly when the copy it is made of does: the copies of `dup` hold
what they should, so it is their writes that decide. -/
theorem PamMessage.fits_respond
    (hdup : ∀ s b, dup s = some b → cstring b.cells = (cstring s).take (pamMaxRespSize - 1)) :
    (m.respond dup username password).Fits username password m ↔
      (m.isLoginPrompt = true → ∀ b, dup username = some b → b.InBounds) ∧
      (m.isPasswordPrompt = true → ∀ b, dup password = some b → b.InBounds) := by
  unfold respond
  by_cases hlogin : m.isLoginPrompt = true
  · have hpassword := isPasswordPrompt_eq_false hlogin
    rw [if_pos hlogin, hpassword]
    constructor
    · intro h
      exact ⟨fun _ => h.inBounds, fun hfalse => absurd hfalse (by decide)⟩
    · rintro ⟨hb, -⟩
      exact ⟨fun b hsome => .inl ⟨hlogin, hdup _ _ hsome⟩, hb hlogin⟩
  · rw [if_neg hlogin]
    by_cases hpassword : m.isPasswordPrompt = true
    · rw [if_pos hpassword]
      constructor
      · intro h
        exact ⟨fun h' => absurd h' hlogin, fun _ => h.inBounds⟩
      · rintro ⟨-, hb⟩
        exact ⟨fun b hsome => .inr ⟨hpassword, hdup _ _ hsome⟩, hb hpassword⟩
    · rw [if_neg hpassword]
      constructor
      · intro _
        exact ⟨fun h' => absurd h' hlogin, fun h' => absurd h' hpassword⟩
      · intro _
        exact ⟨fun b hsome => absurd hsome (by simp), fun b hsome => absurd hsome (by simp)⟩

theorem answersFit_mapIdx {msgs : List PamMessage} {f : ℕ → PamMessage → PamResponse} :
    AnswersFit username password msgs (msgs.mapIdx f) ↔
      ∀ (i : ℕ) m, msgs[i]? = some m → (f i m).Fits username password m := by
  simp only [AnswersFit, List.length_mapIdx, List.getElem?_mapIdx, true_and]
  constructor
  · intro h i m hm
    exact h i m _ hm (by rw [hm]; rfl)
  · intro h i m r hm hr
    rw [hm] at hr
    obtain rfl := Option.some.inj hr
    exact h i m hm

end

/-! ### The extra terminator -/

section

variable {s : List UInt8}

/-- The write at the fixed index never shows: it is behind the copy's own terminator, or
it is that terminator. -/
theorem cells_terminate :
    ((strndup s (pamMaxRespSize - 1)).write (pamMaxRespSize - 1) 0).cells =
      (strndup s (pamMaxRespSize - 1)).cells := by
  simp only [Block.write, cells_strndup]
  rw [List.set_append]
  split
  next h =>
    rw [List.length_take] at h
    omega
  next h =>
    cases hi : pamMaxRespSize - 1 - ((cstring s).take (pamMaxRespSize - 1)).length with
    | zero => rfl
    | succ k => rfl

/-- It is inside the copy exactly when the credential is as long as the limit. -/
theorem inBounds_terminate :
    ((strndup s (pamMaxRespSize - 1)).write (pamMaxRespSize - 1) 0).InBounds ↔
      pamMaxRespSize - 1 ≤ (cstring s).length := by
  rw [Block.inBounds_write, size_strndup]
  constructor
  · rintro ⟨-, h⟩
    omega
  · intro h
    exact ⟨inBounds_strndup, by omega⟩

end

/-- **When the answers stay in their memory**: exactly when every credential that is
copied for a prompt has at least `PAM_MAX_RESP_SIZE - 1` bytes. -/
theorem conversation_iff (username password : Option (List UInt8)) (mem : ℕ → Bool)
    (msgs : List PamMessage) :
    AnswersFit (username.getD []) (password.getD []) msgs
        (authSessionPamConversationCb username password mem msgs).2 ↔
      ∀ (i : ℕ) m, msgs[i]? = some m → mem i = true →
        (m.isLoginPrompt = true → pamMaxRespSize - 1 ≤ (cstring (username.getD [])).length) ∧
        (m.isPasswordPrompt = true →
          pamMaxRespSize - 1 ≤ (cstring (password.getD [])).length) := by
  rw [authSessionPamConversationCb, answersFit_mapIdx]
  refine forall_congr' fun i => forall_congr' fun m => imp_congr_right fun _ => ?_
  cases hmem : mem i with
  | false =>
    rw [PamMessage.fits_respond (by simp [copyCredential])]
    simp [copyCredential]
  | true =>
    rw [PamMessage.fits_respond]
    · simp only [copyCredential, if_true, Option.map_some, Option.some.injEq, forall_eq',
        inBounds_terminate, true_imp_iff]
    · intro s b hb
      simp only [copyCredential, if_true, Option.map_some, Option.some.injEq] at hb
      rw [← hb, cells_terminate, cstring_cells_strndup]

/-- The sibling without the extra write stays in its memory, whatever the credentials. -/
theorem funcConv_fits (username password : List UInt8) (mem : ℕ → Bool)
    {msgs : List PamMessage} (hmsgs : 0 < msgs.length) :
    AnswersFit username password msgs (funcConv username password mem msgs).2 := by
  rw [funcConv, if_neg (by omega), answersFit_mapIdx]
  intro i m _
  have hcopy : ∀ s b, copyCredential (mem i) s = some b →
      b = strndup s (pamMaxRespSize - 1) := by
    intro s b hb
    cases hmem : mem i with
    | false => simp [copyCredential, hmem] at hb
    | true => simpa [copyCredential, hmem, eq_comm] using hb
  rw [PamMessage.fits_respond]
  · constructor
    · intro _ b hb
      rw [hcopy _ _ hb]
      exact inBounds_strndup
    · intro _ b hb
      rw [hcopy _ _ hb]
      exact inBounds_strndup
  · intro s b hb
    rw [hcopy _ _ hb, cstring_cells_strndup]

/-- The user `guest` is asked for his name: six bytes are allocated, and a byte is
written at index 511. -/
theorem login_answer_out_of_bounds :
    (authSessionPamConversationCb (some (asciiBytes "guest")) none (fun _ => true)
      [⟨.promptEchoOn, asciiBytes "login:"⟩]).2.map
        (fun r => r.resp.map fun b => (b.size, b.touched)) =
      [some (6, [0, 1, 2, 3, 4, 5, 511])] := by
  decide

end Tlm

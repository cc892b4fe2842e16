import Mathlib
import Reclaim.CommandLine.Run

/-!
# Logging in and out

A password is one line of the standard input.  In UTF-8 the byte that ends a line is part of no
other character, so the line is read back exactly as it was written, and the password is all of it
but its end.  A login does to the files what supplying the password to the store of the program
does, and a logout what forgetting it does; neither runs a program.

## Main definitions

* `Text.bytes` : the bytes of a text.
* `Text.IsLineEnd` : the two ways to end a line.

## Main results

* `CommandLine.Action.run_readLine` : a line is read as it was written.
* `CommandLine.Job.run_authLogin`, `CommandLine.Job.run_authLogout` : the machine after a login and
  after a logout.
-/

namespace Reclaim

/-! ### Lines -/

namespace Text

/-- The bytes of a text. -/
def bytes (text : String) : List UInt8 :=
  text.toUTF8.data.toList

theorem bytes_append (front back : String) : bytes (front ++ back) = bytes front ++ bytes back := by
  simp [bytes]

theorem decode?_bytes (text : String) : decode? ⟨(bytes text).toArray⟩ = some text := by
  have harray : (⟨(bytes text).toArray⟩ : ByteArray) = text.toUTF8 := by simp [bytes]
  rw [decode?, harray]
  exact dif_pos text.isValidUTF8

/-- A byte of a character is its code, or no code of an ASCII character. -/
theorem toNat_of_mem_utf8EncodeChar {c : Char} {byte : UInt8}
    (h : byte ∈ String.utf8EncodeChar c) : byte.toNat = c.toNat ∨ 128 ≤ byte.toNat := by
  have hcode : c.val.toNat < 0x110000 := by
    have hvalid := c.valid
    simp only [UInt32.isValidChar, Nat.isValidChar] at hvalid
    omega
  have hlow {n : Nat} (hn : n < 256) : (UInt8.ofNat n).toNat = n := by
    rw [UInt8.toNat_ofNat', Nat.mod_eq_of_lt hn]
  have hhigh {n : Nat} (hn : 128 ≤ n) (hn' : n < 256) : 128 ≤ (UInt8.ofNat n).toNat := by
    rwa [hlow hn']
  simp only [String.utf8EncodeChar] at h
  split at h
  · obtain rfl := List.mem_singleton.mp h
    exact .inl (hlow (by omega))
  · refine .inr ?_
    split at h
    · simp only [List.mem_cons, List.not_mem_nil, or_false] at h
      rcases h with rfl | rfl
      all_goals exact hhigh (by omega) (by omega)
    · split at h
      · simp only [List.mem_cons, List.not_mem_nil, or_false] at h
        rcases h with rfl | rfl | rfl
        all_goals exact hhigh (by omega) (by omega)
      · simp only [List.mem_cons, List.not_mem_nil, or_false] at h
        rcases h with rfl | rfl | rfl | rfl
        all_goals exact hhigh (by omega) (by omega)

/-- The byte of a line feed is in no text without one. -/
theorem ne_of_mem_bytes {text : String} (htext : '\n' ∉ text.toList) {byte : UInt8}
    (h : byte ∈ bytes text) : byte ≠ 10 := by
  have hbytes : bytes text = text.toList.flatMap String.utf8EncodeChar := by
    rw [bytes, String.toUTF8, ← String.utf8Encode_toList, List.utf8Encode]
    simp
  rw [hbytes, List.mem_flatMap] at h
  obtain ⟨c, hc, hbyte⟩ := h
  rintro rfl
  rcases toNat_of_mem_utf8EncodeChar hbyte with hcode | hcode
  · have hnewline : c = '\n' := Char.toNat_inj.mp hcode.symm
    exact htext (hnewline ▸ hc)
  · exact absurd hcode (by decide)

/-- What is dropped goes from behind a text in which nothing is dropped. -/
theorem trimEnd_append {drop : Char → Bool} {text ending : String}
    (htext : ∀ c ∈ text.toList, drop c = false) (hending : ∀ c ∈ ending.toList, drop c = true) :
    trimEnd drop (text ++ ending) = text := by
  have hkept : text.toList.reverse.dropWhile drop = text.toList.reverse := by
    rw [List.dropWhile_eq_self_iff]
    intro hlength
    rw [htext _ (List.mem_reverse.mp (List.getElem_mem hlength))]
    exact Bool.false_ne_true
  rw [trimEnd, dropEndWhile, String.toList_append, List.reverse_append,
    List.dropWhile_append_of_pos (by simpa using hending), hkept, List.reverse_reverse,
    String.ofList_toList]

/-- The text ends a line. -/
def IsLineEnd (text : String) : Prop :=
  text = "\n" ∨ text = "\r\n"

/-- A line end is a line feed behind a text without one. -/
theorem IsLineEnd.exists_front {ending : String} (h : IsLineEnd ending) :
    ∃ front, ending = front ++ "\n" ∧ '\n' ∉ front.toList := by
  rcases h with rfl | rfl
  · exact ⟨"", rfl, by decide⟩
  · exact ⟨"\r", rfl, by decide⟩

theorem IsLineEnd.dropped {ending : String} (h : IsLineEnd ending) :
    ∀ c ∈ ending.toList, (c == '\r' || c == '\n') = true := by
  rcases h with rfl | rfl
  · simp
  · simp

end Text

namespace CommandLine

/-! ### Actions -/

namespace Action

variable {α β : Type} {x : Action α} {c c' : Console}

/-- An action goes on behind one that was not given up. -/
theorem run_bind_of_ok (f : α → Action β) {a : α} (h : x.run c = (.ok a, c')) :
    (x >>= f).run c = (f a).run c' := by
  rw [ExceptT.run_bind]
  simp only [bind, StateT.bind, h]

/-- Nothing goes on behind an action that was given up. -/
theorem run_bind_of_error (f : α → Action β) {e : Failure} (h : x.run c = (.error e, c')) :
    (x >>= f).run c = (.error e, c') := by
  rw [ExceptT.run_bind]
  simp only [bind, StateT.bind, h]
  rfl

theorem run_config {s : Surroundings} {settings : Config}
    (h : Config.load s.home c.machine.disk = .ok settings) :
    (config s).run c = (.ok settings, c) := by
  have hload : (config s).run c =
      (orFail Failure.config (Config.load s.home c.machine.disk)).run c := rfl
  rw [hload, h]
  rfl

/-- A line is read as it was written, and the rest of the input is left. -/
theorem run_readLine {front : String} {rest : List UInt8} (hfront : '\n' ∉ front.toList)
    (hinput : c.input = Text.bytes (front ++ "\n") ++ rest) :
    readLine.run c = (.ok (some (front ++ "\n")), { c with input := rest }) := by
  have hread {taken bytes rest : List UInt8} {n : Nat}
      (htaken : c.input.takeWhile (· != 10) = taken)
      (hn : min (taken.length + 1) c.input.length = n) (hbytes : c.input.take n = bytes)
      (hrest : c.input.drop n = rest) :
      readLine.run c = (.ok (Text.decode? ⟨bytes.toArray⟩), { c with input := rest }) := by
    subst htaken hn hbytes hrest
    rfl
  have hbytes : Text.bytes (front ++ "\n") = Text.bytes front ++ [10] := Text.bytes_append ..
  have htaken : c.input.takeWhile (· != 10) = Text.bytes front := by
    rw [hinput, hbytes, List.append_assoc, List.takeWhile_append_of_pos]
    · simp
    · intro byte hbyte
      simpa using Text.ne_of_mem_bytes hfront hbyte
  have hlength : min ((Text.bytes front).length + 1) c.input.length =
      (Text.bytes (front ++ "\n")).length := by
    rw [hinput, hbytes]
    simp
  rw [← Text.decode?_bytes]
  exact hread htaken hlength (by rw [hinput, List.take_left]) (by rw [hinput, List.drop_left])

end Action

/-! ### Login and logout -/

namespace Job

variable {j : Job} {c : Console} {settings : Config}

/-- A login supplies the password to the store of the program. -/
theorem run_authLogin (hsettings : Config.load j.home c.machine.disk = .ok settings)
    {secret ending : String} {rest : List UInt8} (hsecret : secret ≠ "")
    (hline : '\r' ∉ secret.toList ∧ '\n' ∉ secret.toList) (hending : Text.IsLineEnd ending)
    (hinput : c.input = Text.bytes (secret ++ ending) ++ rest) :
    let store := CredentialStore.opened (Config.credentialPath j.home) settings.persistCredential
      c.machine.disk
    ∃ output, j.authLogin.run c = (.ok (), {
      machine := { c.machine with disk := (store.set ⟨secret⟩ c.machine.disk).2 }
      input := rest
      output }) := by
  intro store
  obtain ⟨hreturn, hfeed⟩ := hline
  have htrim : Text.trimEnd (fun c => c == '\r' || c == '\n') (secret ++ ending) = secret := by
    refine Text.trimEnd_append (fun c hc => ?_) hending.dropped
    have hne : c ≠ '\r' ∧ c ≠ '\n' := ⟨fun h => hreturn (h ▸ hc), fun h => hfeed (h ▸ hc)⟩
    simp [hne]
  obtain ⟨front, rfl, hfront⟩ := hending.exists_front
  rw [← String.append_assoc] at hinput htrim
  have hopen : (j.openStore settings).run c = (.ok store, c) := rfl
  have hread := Action.run_readLine (by simp [hfeed, hfront]) hinput
  rw [authLogin, Action.run_bind_of_ok _ (Action.run_config hsettings),
    Action.run_bind_of_ok _ hopen, Action.run_bind_of_ok _ hread]
  simp only [htrim, if_neg hsecret]
  split
  · exact ⟨_, rfl⟩
  · exact ⟨_, rfl⟩

/-- A logout makes the store of the program forget the password. -/
theorem run_authLogout (hsettings : Config.load j.home c.machine.disk = .ok settings) :
    let store := CredentialStore.opened (Config.credentialPath j.home) settings.persistCredential
      c.machine.disk
    ∃ output, j.authLogout.run c = (.ok (), {
      machine := { c.machine with disk := (store.clear c.machine.disk).2 }
      input := c.input
      output }) := by
  intro store
  rw [authLogout, Action.run_bind_of_ok _ (Action.run_config hsettings)]
  exact ⟨_, rfl⟩

end Job

end CommandLine

end Reclaim

import Mathlib.Data.List.Basic
import Mathlib.Tactic.Common

/-! Strings and the two copies of the account. A string is its UTF-8 bytes on
both sides of the JNI; every delimiter the program looks for is ASCII, so the
Kotlin operations used here commute with the encoding. -/
namespace SimplePhone

abbrev Str := List UInt8

def utf8 (s : String) : Str := s.toList.flatMap String.utf8EncodeChar

/-- `%d` in C and a string template in Kotlin print an integer alike. -/
def decimal : Int → Str
  | .ofNat n => (Nat.toDigits 10 n).flatMap String.utf8EncodeChar
  | .negSucc n => 45 :: (Nat.toDigits 10 (n + 1)).flatMap String.utf8EncodeChar

/-- The suffix of the haystack from the first occurrence of the needle. -/
def strstr (needle : Str) : Str → Option Str
  | [] => if needle.isEmpty then some [] else none
  | b :: rest => if needle.isPrefixOf (b :: rest) then some (b :: rest) else strstr needle rest

/-- What `snprintf(buf, size, ..)` and a zero-padded `strncpy` of `size - 1`
bytes leave in the buffer. -/
def bounded (size : Nat) (s : Str) : Str := s.take (size - 1)

def removePrefix (p s : Str) : Str := if p.isPrefixOf s then s.drop p.length else s

/-- Kotlin returns the whole string when the delimiter is missing. -/
def substringBefore (delimiter : UInt8) (s : Str) : Str := s.takeWhile (· ≠ delimiter)

def colon : UInt8 := 58
def atSign : UInt8 := 64

/-! ### `SipConfig`: the stored account -/

structure SipConfig where
  server : Str
  port : Int
  user : Str
  password : Str
  realm : Str
deriving DecidableEq

/-- An account for examples. -/
def SipConfig.sample : SipConfig :=
  ⟨utf8 "192.0.2.1", 5060, utf8 "202", utf8 "secret", utf8 "asterisk"⟩

def SipConfig.isConfigured (c : SipConfig) : Bool :=
  !c.server.isEmpty && !c.user.isEmpty && !c.password.isEmpty

def SipConfig.authority (c : SipConfig) : Str :=
  if colon ∈ c.server then c.server else c.server ++ [colon] ++ decimal c.port

def SipConfig.buildAor (c : SipConfig) : Str :=
  utf8 "<sip:" ++ c.user ++ [atSign] ++ c.authority ++ utf8 ">;auth_user=" ++ c.user ++
    utf8 ";auth_pass=" ++ c.password ++ utf8 ";regint=60"

/-! ### The static buffers of `native-sip-jni.c` -/

structure Buffers where
  server : Str
  user : Str
  pass : Str
  realm : Str
  port : Int
deriving DecidableEq

/-- The copy `nativeInit` makes, once per process. -/
def nativeInit (c : SipConfig) : Buffers where
  server := bounded 64 c.server
  user := bounded 32 c.user
  pass := bounded 64 c.password
  realm := bounded 32 c.realm
  port := c.port

def buildServerAuthority (b : Buffers) (size : Nat) : Str :=
  if colon ∈ b.server then bounded size b.server
  else bounded size (b.server ++ [colon] ++ decimal b.port)

def buildAccountAor (b : Buffers) (size : Nat) : Str :=
  bounded size (utf8 "<sip:" ++ b.user ++ [atSign] ++ buildServerAuthority b 96 ++
    utf8 ">;auth_user=" ++ b.user ++ utf8 ";auth_pass=" ++ b.pass ++ utf8 ";regint=60")

/-- The request URI `nativeMakeCall` assembles in `uri_buf`. -/
def dialUri (b : Buffers) (number : Str) : Str :=
  if (utf8 "sip:").isPrefixOf number || (utf8 "tel:").isPrefixOf number then bounded 256 number
  else bounded 256 (utf8 "sip:" ++ number ++ [atSign] ++ buildServerAuthority b 96)

/-! ### Caller numbers -/

/-- The number passed to `onIncomingCall`: the user part when it fits the
32-byte local buffer, everything after the scheme otherwise. -/
def callerNumber (prm : Str) : Str :=
  let userStart := match strstr (utf8 "sip:") prm with
    | some rest => rest.drop 4
    | none => prm
  if atSign ∈ userStart ∧ (userStart.takeWhile (· ≠ atSign)).length < 32 then
    userStart.takeWhile (· ≠ atSign)
  else userStart

/-- What `MainActivity.onIncomingCall` keeps of the number it is given. -/
def displayNumber (number : Str) : Str :=
  substringBefore atSign (removePrefix (utf8 "sip:") number)

example : displayNumber (callerNumber (utf8 "sip:203@192.0.2.1")) = utf8 "203" := by decide

end SimplePhone

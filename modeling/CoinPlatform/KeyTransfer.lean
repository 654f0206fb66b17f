/-
# The private key of the genesis blocks

`keygen` prints a private key in hexadecimal, and `genesis_generator` is given the printed text as
its argument.  The digits of `bytes_to_hex` come from a stream whose width is set again for every
byte, and `hex_to_bytes` reads them two at a time.

* `text_streamBytes`: the stream holds the digits of `bytesToHex`;
* `hexToBytes_bytesToHex`: they are read as the bytes that were printed;
* `keys_transferred`: the tool reads the key that was printed.
-/
import CoinPlatform.GenesisGenerator
import CoinPlatform.HexText
import CoinPlatform.OutputStream

open StdStream StdString StdVector

namespace CoinPlatform

/-! ## Printing -/

/-- The loop of `bytes_to_hex`, over the stream that it prints to. -/
def streamBytes (ss : OutputStream) : Bytes → OutputStream
  | [] => ss
  | b :: data => streamBytes (((ss.hex.setw 2).setfill '0').putInt b.toNat) data

namespace Keygen

/-- What is printed in front of the key. -/
def label : List Char :=
  ['G', 'e', 'n', 'e', 'r', 'a', 't', 'e', 'd', ' ', 'P', 'r', 'i', 'v', 'a', 't', 'e', ' ',
    'K', 'e', 'y', ':', ' ']

/-- What `main` of `keygen` prints, once `generate_private_key` has returned. -/
def main (privateKey : PrivateKey) : List Char :=
  let privateKeyHex := (streamBytes OutputStream.empty privateKey.toList).text
  (((OutputStream.empty.put label).put privateKeyHex).put ['\n']).text

end Keygen

/-! ## Reading -/

namespace GenesisGenerator

/-- How `main` ends when it writes no file: it prints a message and returns one, or an exception
of `std::stoul` or of the cryptography leaves it. -/
inductive MainError where
  | message (text : String)
  | number (error : NumberError)
  | fault (fault : Fault)
  deriving DecidableEq

/-- The private key that `main` takes from its argument. -/
def readPrivateKey (argv : List (List Char)) : Except MainError PrivateKey :=
  match argv with
  | [_, privateKeyHex] =>
    match hexToBytes privateKeyHex with
    | .error error => .error (.number error)
    | .ok privateKeyBytes =>
      if h : privateKeyBytes.length = 32 then .ok ⟨privateKeyBytes, h⟩
      else .error (.message "Invalid private key size.")
  | _ => .error (.message "Usage: ./genesis_generator <private_key_hex>")

end GenesisGenerator

/-! ## Digits -/

variable {c : Char} {data : Bytes} {privateKey : PrivateKey}

/-- **The stream holds the digits** behind what it held before. -/
theorem text_streamBytes (ss : OutputStream) (data : Bytes) :
    (streamBytes ss data).text = ss.text ++ bytesToHex data := by
  induction data generalizing ss with
  | nil => exact (List.append_nil ss.text).symm
  | cons b data ih =>
      rw [streamBytes, ih, OutputStream.text_putInt_hex b.toNat_lt, List.append_assoc,
        bytesToHex_cons]
      rfl

/-- What is printed is a digit in lower case. -/
theorem isDigit_digitChar :
    ∀ n < 16, IsDigit 16 (Nat.digitChar n) ∧ (Nat.digitChar n).toLower = Nat.digitChar n := by
  decide

theorem isDigit_of_mem_bytesToHex (h : c ∈ bytesToHex data) :
    IsDigit 16 c ∧ c.toLower = c := by
  obtain ⟨b, -, hc⟩ := List.mem_flatMap.mp h
  have hb : b.toNat < 256 := b.toNat_lt
  rw [hexByte, List.mem_cons, List.mem_singleton] at hc
  rcases hc with rfl | rfl
  · exact isDigit_digitChar _ (by omega)
  · exact isDigit_digitChar _ (by omega)

/-- **Reading undoes printing.** -/
theorem hexToBytes_bytesToHex (data : Bytes) : hexToBytes (bytesToHex data) = .ok data := by
  have heven : (bytesToHex data).length % 2 = 0 := by
    rw [length_bytesToHex]
    omega
  have hlower : (bytesToHex data).map Char.toLower = bytesToHex data := by
    refine (List.map_congr_left fun c hc => ?_).trans (List.map_id _)
    exact (isDigit_of_mem_bytesToHex hc).2
  obtain ⟨result, hresult, hprint⟩ := hexPairsToBytes_of_isDigit heven
    (fun c hc => (isDigit_of_mem_bytesToHex hc).1)
  rw [hlower] at hprint
  rw [hexToBytes, if_neg (by rw [heven]; decide), hresult, bytesToHex_injective hprint]

/-! ## The two tools -/

theorem keygen_main (privateKey : PrivateKey) :
    Keygen.main privateKey = Keygen.label ++ bytesToHex privateKey.toList ++ ['\n'] := by
  rw [Keygen.main, OutputStream.text_put (OutputStream.width_put _),
    OutputStream.text_put (OutputStream.width_put _), OutputStream.text_put rfl, text_streamBytes]
  rfl

namespace GenesisGenerator

variable {argv : List (List Char)}

/-- A key is read from the one argument that spells it. -/
theorem readPrivateKey_eq_ok : readPrivateKey argv = .ok privateKey ↔
    ∃ program privateKeyHex, argv = [program, privateKeyHex] ∧
      hexToBytes privateKeyHex = .ok privateKey.toList := by
  constructor
  · intro h
    unfold readPrivateKey at h
    split at h
    · rename_i program privateKeyHex
      split at h
      · cases h
      · rename_i privateKeyBytes hread
        split at h
        · obtain rfl := Except.ok.inj h
          exact ⟨program, privateKeyHex, rfl, hread⟩
        · cases h
    · cases h
  · rintro ⟨program, privateKeyHex, rfl, hread⟩
    simp only [readPrivateKey, hread, privateKey.toList_length, dite_true]
    rfl

/-- **Keys are transferred**: every byte string is printed in twice its length and read back, so
no two are printed alike, and `genesis_generator` reads the key that `keygen` printed. -/
theorem keys_transferred :
    (∀ data : Bytes, (streamBytes OutputStream.empty data).text = bytesToHex data ∧
      (bytesToHex data).length = 2 * data.length ∧ hexToBytes (bytesToHex data) = .ok data) ∧
    Function.Injective bytesToHex ∧
    ∀ (privateKey : PrivateKey) (program : List Char), ∃ privateKeyHex,
      Keygen.main privateKey = Keygen.label ++ privateKeyHex ++ ['\n'] ∧
      readPrivateKey [program, privateKeyHex] = .ok privateKey := by
  refine ⟨fun data => ⟨text_streamBytes _ data, length_bytesToHex data,
    hexToBytes_bytesToHex data⟩, fun _ _ => bytesToHex_injective, fun privateKey program => ?_⟩
  exact ⟨bytesToHex privateKey.toList, keygen_main privateKey,
    readPrivateKey_eq_ok.mpr ⟨program, _, rfl, hexToBytes_bytesToHex _⟩⟩

end GenesisGenerator

end CoinPlatform

/-
What is read back from a file.

A key is read back as it was written, whatever the file held before: its components
are decimal texts, which are not empty and have no ';' in them, so the scanner cuts
the file where `toString` joined it (`keys_survive_files`).  A ballot is never read
back: the file holds the text of an array, which does not begin as an object stream
does (`ballot_fromFile_toFile`).  Nor would a stream help in another process, where
the static fields of the class are null.
-/
import Evoting.Model.KeyFiles
import Evoting.Model.Reference

namespace Evoting

/-! ### Files -/

namespace Files

variable (files : Files) (name text : JString)

/-- A file that is written holds the text, whatever it held before. -/
@[simp] theorem write_self : files.write name text name = some text := by
  simp [write, print, openForWriting]

/-- Making one file anew leaves the others alone. -/
theorem recreate_of_ne {other : JString} (h : other ≠ name) :
    files.recreate name other = files other := by
  have hdelete : files.delete name other = files other := Function.update_of_ne h _ _
  have hcreate : ∀ files : Files, files.createNewFile name other = files other := by
    intro files
    unfold createNewFile
    split
    · rfl
    · exact Function.update_of_ne h _ _
  rw [recreate, hcreate]
  split
  · exact hdelete
  · rfl

/-- Writing to one file leaves the others alone. -/
theorem write_of_ne {other : JString} (h : other ≠ name) :
    files.write name text other = files other := by
  rw [write, print, Function.update_of_ne h, openForWriting, Function.update_of_ne h,
    recreate_of_ne files name h]

/-- A file that is made anew is empty. -/
theorem recreate_self : files.recreate name name = some [] := by
  unfold recreate createNewFile
  cases hfile : files name <;> simp [isThere, delete, hfile]

theorem read_eq (h : files name = some text) : files.read name = .ok text := by
  rw [read, h]

end Files

/-! ### Keys -/

theorem toText_no_delimiter (a : Int) : ';' ∉ BigInteger.toText a :=
  Decimal.not_mem_render (by simp [Decimal.IsDecimal])

/-- A number that another one follows. -/
theorem next_number (a : Int) (rest : JString) :
    Scanner.next ';' (BigInteger.toText a ++ ';' :: rest)
      = .ok (BigInteger.toText a, ';' :: rest) :=
  Scanner.next_append (Decimal.render_ne_nil a) (toText_no_delimiter a)

/-- A number behind another one. -/
theorem next_after (a : Int) (rest : JString) :
    Scanner.next ';' (';' :: (BigInteger.toText a ++ rest))
      = Scanner.next ';' (BigInteger.toText a ++ rest) :=
  Scanner.next_delimiter (Decimal.render_ne_nil a) (toText_no_delimiter a) rest

/-- The last number. -/
theorem next_final (a : Int) :
    Scanner.next ';' (';' :: BigInteger.toText a) = .ok (BigInteger.toText a, []) := by
  have hafter := next_after a []
  rw [List.append_nil] at hafter
  rw [hafter, Scanner.next_last (Decimal.render_ne_nil a) (toText_no_delimiter a)]

/-- **A file with the text of a public key is read as that key.** -/
theorem publicKey_fromFile {pk : PaillierPublicKey} (hbits : Integer.InRange pk.bits)
    {name : JString} {files : Files} (h : files name = some pk.toText) :
    PaillierPublicKey.fromFile name files = .ok pk := by
  have htext : pk.toText = BigInteger.toText pk.bits ++ ';' :: (BigInteger.toText pk.n
      ++ ';' :: (BigInteger.toText pk.nSquared ++ ';' :: BigInteger.toText pk.g)) := by
    simp [PaillierPublicKey.toText]
  simp only [PaillierPublicKey.fromFile, files.read_eq name _ h, htext, ok_bind, next_number,
    next_after, next_final, Integer.parseInt_toText hbits, BigInteger.ofText_toText, pure_eq_ok]

/-- **A file with the text of a private key is read as that key.** -/
theorem privateKey_fromFile {sk : PaillierPrivateKey} {name : JString} {files : Files}
    (h : files name = some sk.toText) : PaillierPrivateKey.fromFile name files = .ok sk := by
  have htext : sk.toText = BigInteger.toText sk.lambda
      ++ ';' :: BigInteger.toText sk.preCalculatedDenominator := by
    simp [PaillierPrivateKey.toText]
  simp only [PaillierPrivateKey.fromFile, files.read_eq name _ h, htext, ok_bind, next_number,
    next_final, BigInteger.ofText_toText, pure_eq_ok]

/-- **Keys survive their files**: each is read back as it was written, over any file and over
none, and a pair written to two files encrypts and decrypts as before. -/
theorem keys_survive_files {pk : PaillierPublicKey} (hbits : Integer.InRange pk.bits)
    (sk : PaillierPrivateKey) (name : JString) (files : Files) :
    PaillierPublicKey.fromFile name (pk.toFile name files) = .ok pk ∧
    PaillierPrivateKey.fromFile name (sk.toFile name files) = .ok sk ∧
    ∀ other, other ≠ name → ∃ pk' sk',
      PaillierPublicKey.fromFile name (sk.toFile other (pk.toFile name files)) = .ok pk' ∧
      PaillierPrivateKey.fromFile other (sk.toFile other (pk.toFile name files)) = .ok sk' ∧
      (∀ m draws, pk'.encrypt m draws = pk.encrypt m draws) ∧
      (∀ m draws, pk'.encryptToCipherText m draws = pk.encryptToCipherText m draws) ∧
      ∀ upperBound c, KeyPair.decrypt ⟨sk', pk', upperBound⟩ c
        = KeyPair.decrypt ⟨sk, pk, upperBound⟩ c := by
  refine ⟨publicKey_fromFile hbits (files.write_self name _),
    privateKey_fromFile (files.write_self name _), fun other hother => ⟨pk, sk, ?_, ?_, ?_⟩⟩
  · refine publicKey_fromFile hbits ?_
    rw [PaillierPrivateKey.toFile, Files.write_of_ne _ _ _ (Ne.symm hother)]
    exact files.write_self name _
  · exact privateKey_fromFile (Files.write_self _ other _)
  · exact ⟨fun _ _ => rfl, fun _ _ => rfl, fun _ _ => rfl⟩

/-- A key with components of both signs, written over a file with something else in it. -/
theorem keys_survive_files_reference :
    PaillierPublicKey.fromFile ['p'] ((⟨-8, -77, 0, 5929⟩ : PaillierPublicKey).toFile ['p']
        fun _ => some [';', 'x', ';']) = .ok ⟨-8, -77, 0, 5929⟩ ∧
      PaillierPrivateKey.fromFile ['p'] ((⟨30, -1⟩ : PaillierPrivateKey).toFile ['p']
        fun _ => some [';', 'x', ';']) = .ok ⟨30, -1⟩ := by
  have hbits : Integer.InRange (⟨-8, -77, 0, 5929⟩ : PaillierPublicKey).bits := by decide
  have h := keys_survive_files hbits ⟨30, -1⟩ ['p'] fun _ => some [';', 'x', ';']
  exact ⟨h.1, h.2.1⟩

/-! ### Ballots -/

section Ballots

open PaillierRingParameters

variable (providers : Providers) (streams : ObjectStreams) (utf8 : Utf8)

/-- The ballot in the static fields `w` is written to a file without an exception, read back in
a process with the static fields `w'`, is the same there, and verifies. -/
structure BallotSurvives (identityHashCode : Nat) (name : JString) (files : Files)
    (w w' : World) : Prop where
  written : (toFile streams identityHashCode name files).1 = .ok ()
  read : fromFile streams utf8 name (toFile streams identityHashCode name files).2 = .ok (some ())
  message : w'.message = w.message
  publicKeys : w'.publicKeys.map w'.lists = w.publicKeys.map w.lists
  v : w'.v = w.v
  x : w'.x = w.x
  random_seed : w'.random_seed = w.random_seed
  verifies : verifyRingSignature providers w' = true

theorem toDigits_ascii (m : Nat) : ∀ c ∈ Nat.toDigits 16 m, c.toNat < 128 := by
  have hdigit : ∀ d < 16, (Nat.digitChar d).toNat < 128 := by decide
  induction m using Nat.strong_induction_on with
  | _ m ih =>
      intro c hc
      by_cases hm : m < 16
      · rw [Nat.toDigits_of_lt_base hm] at hc
        rw [List.mem_singleton.mp hc]
        exact hdigit m hm
      · rw [Nat.toDigits_of_base_le (by decide) (by omega)] at hc
        rcases List.mem_append.mp hc with hc | hc
        · exact ih (m / 16) (by omega) c hc
        · rw [List.mem_singleton.mp hc]
          exact hdigit (m % 16) (Nat.mod_lt m (by decide))

/-- The text of an array is of ASCII characters. -/
theorem arrayText_ascii (identityHashCode : Nat) :
    ∀ c ∈ arrayText identityHashCode, c.toNat < 128 := by
  intro c hc
  rcases List.mem_append.mp hc with hc | hc
  · simp only [List.mem_cons, List.not_mem_nil, or_false] at hc
    rcases hc with rfl | rfl | rfl <;> decide
  · exact toDigits_ascii identityHashCode c hc

/-- **The text of an array is not an object stream.** -/
theorem readObject_arrayText (identityHashCode : Nat) :
    ∃ e, streams.readObject (utf8.copyFromUtf8 (arrayText identityHashCode)) = .error e := by
  cases h : streams.readObject (utf8.copyFromUtf8 (arrayText identityHashCode)) with
  | error e => exact ⟨e, rfl⟩
  | ok o =>
      have hheader := streams.header_of_readObject _ _ h
      rw [utf8.copyFromUtf8_ascii _ (arrayText_ascii identityHashCode), arrayText,
        List.map_append, List.map_cons, List.cons_append, streamHeader,
        List.cons_prefix_cons] at hheader
      exact absurd hheader.1 (by decide)

/-- **A ballot is never read back**: the file is empty, or it has the text of an array. -/
theorem ballot_fromFile_toFile (identityHashCode : Nat) (name : JString) (files : Files) :
    ∃ e, fromFile streams utf8 name (toFile streams identityHashCode name files).2 = .error e := by
  have hread : ∃ text, (toFile streams identityHashCode name files).2 name = some text ∧
      ∃ e, streams.readObject (utf8.copyFromUtf8 text) = .error e := by
    unfold toFile
    split
    · refine ⟨[], files.recreate_self name, ?_⟩
      rw [utf8.copyFromUtf8_nil]
      exact streams.readObject_nil
    · exact ⟨_, files.write_self name _, readObject_arrayText streams utf8 identityHashCode⟩
  obtain ⟨text, htext, e, he⟩ := hread
  exact ⟨e.thrown, by rw [fromFile, Files.read_eq _ name _ htext, ok_bind, he]⟩

/-- **No ballot survives its file.**  Whatever the ballot in the static fields `w`, the file is
not read, in that process or in another; and in a new one the static fields are null, so that
nothing verifies there. -/
theorem ballot_never_survives (identityHashCode : Nat) (name : JString) (files : Files)
    (w : World) :
    (∃ e, fromFile streams utf8 name (toFile streams identityHashCode name files).2 = .error e) ∧
    (∀ w', ¬BallotSurvives providers streams utf8 identityHashCode name files w w') ∧
    ∀ lists, verifyRingSignature providers (World.initial lists) = false := by
  obtain ⟨e, he⟩ := ballot_fromFile_toFile streams utf8 identityHashCode name files
  refine ⟨⟨e, he⟩, fun w' hsurvives => ?_, fun _ => rfl⟩
  have hread := hsurvives.read
  rw [he] at hread
  exact absurd hread (by simp)

end Ballots

/-- The static fields after a ring of one, with seed 7, has signed the message 2. -/
def ballotOfTwo : Except Throwable Unit × World :=
  (⟨1, 7⟩ : PaillierRing).sign .reference (fun _ => 0) 2
    (PaillierRing.new KeyPair.reference 0 1 7 (World.initial fun _ => [])).2

/-- That ballot verifies, and it is lost in the file and to another process. -/
theorem ballotOfTwo_lost : ballotOfTwo.1 = .ok () ∧
    PaillierRingParameters.verifyRingSignature .reference ballotOfTwo.2 = true ∧
    ¬BallotSurvives .reference .tagged .standard 31 ['b'] (fun _ => none)
      ballotOfTwo.2 ballotOfTwo.2 ∧
    ¬BallotSurvives .reference .tagged .standard 31 ['b'] (fun _ => none)
      ballotOfTwo.2 (World.initial fun _ => []) := by
  obtain ⟨e, he⟩ := ballot_fromFile_toFile .tagged .standard 31 ['b'] fun _ => none
  have hlost : ∀ w', ¬BallotSurvives .reference .tagged .standard 31 ['b'] (fun _ => none)
      ballotOfTwo.2 w' := by
    intro w' hsurvives
    have hread := hsurvives.read
    rw [he] at hread
    exact absurd hread (by simp)
  exact ⟨by decide +kernel, by decide +kernel, hlost _, hlost _⟩

end Evoting

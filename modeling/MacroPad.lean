import MacroPad.Playback.Script
import MacroPad.Pad.Session
import MacroPad.Stored.Record
import MacroPad.Proofs.PlayedScript
import MacroPad.Proofs.Course
import MacroPad.Proofs.DropOnly
import MacroPad.Proofs.Release
import MacroPad.Proofs.Trimming
import MacroPad.Proofs.Names
import MacroPad.Proofs.WaitForm
import MacroPad.Proofs.WaitGrammar
import MacroPad.Proofs.HoldGrammar
import MacroPad.Proofs.Schedule
import MacroPad.Proofs.NumberEntry
import MacroPad.Proofs.ChordForm
import MacroPad.Proofs.Endings
import MacroPad.Proofs.Usages
import MacroPad.Proofs.NumLockBracket
import MacroPad.Proofs.NumLockLoss
import MacroPad.Proofs.Dispatch
import MacroPad.Proofs.LinkHistory
import MacroPad.Proofs.Gate
import MacroPad.Proofs.PlayingTime
import MacroPad.Proofs.TypingGrammar
import MacroPad.Proofs.PlanShape
import MacroPad.Proofs.TapSchedule
import MacroPad.Proofs.TypingRhythm
import MacroPad.Proofs.TypedText
import MacroPad.Proofs.Timetable
import MacroPad.Proofs.Respelling
import MacroPad.Proofs.RespelledText
import MacroPad.Proofs.Meanwhile
import MacroPad.Proofs.KeybindAsKeystroke
import MacroPad.Proofs.Numerals
import MacroPad.Proofs.StoredRoundTrip
import MacroPad.Proofs.StoredParts
import MacroPad.Proofs.Decoding
import MacroPad.Proofs.LeftToRight
import MacroPad.Proofs.ChordGrammar
import MacroPad.Proofs.SharedNames
import MacroPad.Proofs.SequenceTaps
import MacroPad.Proofs.Bytes
import MacroPad.Proofs.CheckedKeys
import MacroPad.Proofs.CheckedReaders

import AbiCalls.Abi.Encoding
import AbiCalls.Proofs.Grouping
import AbiCalls.Proofs.Reading
import AbiCalls.Proofs.TwoPhase
import AbiCalls.Session.Run
import AbiCalls.Settings
import AbiCalls.Proofs.Classification
import AbiCalls.Proofs.Isolation
import AbiCalls.Proofs.Operations
import AbiCalls.Proofs.Separation
import AbiCalls.Proofs.RoundTrip
import AbiCalls.Proofs.Worlds
import AbiCalls.Proofs.SideBySide
import AbiCalls.Proofs.Wakes
import AbiCalls.Proofs.BindingIndex
import AbiCalls.Proofs.Factories
import AbiCalls.Proofs.Addressing
import AbiCalls.Proofs.DescribedBindings
import AbiCalls.Proofs.Editions
import AbiCalls.Proofs.Signatures
import AbiCalls.Proofs.SignatureLookup
import AbiCalls.Proofs.Nesting
import AbiCalls.Proofs.WrittenText
import AbiCalls.Proofs.AbiText
import AbiCalls.Proofs.Scopes
import AbiCalls.Proofs.Dispatch
import AbiCalls.Proofs.Spelling
import AbiCalls.Proofs.AddressText
import AbiCalls.Proofs.MemberGrammar
import AbiCalls.Proofs.InsertionOrder
import AbiCalls.Proofs.RepeatedMarks
import AbiCalls.Proofs.ErrorChains
import AbiCalls.Proofs.PollTimes
import AbiCalls.Proofs.SteadyWatches
import AbiCalls.Proofs.SessionWatches
import AbiCalls.Proofs.SideBySideWatches
import AbiCalls.Proofs.SettingsText
import AbiCalls.Proofs.PollIntervals

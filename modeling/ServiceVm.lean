import ServiceVm.Bytes
import ServiceVm.Codec
import ServiceVm.Exit
import ServiceVm.Hash.Blake2b
import ServiceVm.Host.Accounts
import ServiceVm.Host.Call
import ServiceVm.Host.Context
import ServiceVm.Host.Dispatch
import ServiceVm.Host.Fetch
import ServiceVm.Host.Nested
import ServiceVm.Host.Preimages
import ServiceVm.Host.Privileges
import ServiceVm.Host.Reply
import ServiceVm.Host.Services
import ServiceVm.Instr.Basic
import ServiceVm.Instr.Step
import ServiceVm.Invocation.Accumulation
import ServiceVm.Invocation.Argument
import ServiceVm.Invocation.Authorization
import ServiceVm.Invocation.Refinement
import ServiceVm.Invocation.TransferReceipt
import ServiceVm.Machine
import ServiceVm.Memory.Basic
import ServiceVm.Memory.Mapping
import ServiceVm.Memory.Page
import ServiceVm.Opcode
import ServiceVm.Pipeline.BlockCost
import ServiceVm.Pipeline.Resource
import ServiceVm.Program.Basic
import ServiceVm.Program.Blob
import ServiceVm.Program.Error
import ServiceVm.Program.Image
import ServiceVm.Proofs.Codec.Natural
import ServiceVm.Proofs.Host.Atomicity
import ServiceVm.Proofs.Host.Nested
import ServiceVm.Proofs.Host.Output
import ServiceVm.Proofs.Host.Permission
import ServiceVm.Proofs.Host.Run
import ServiceVm.Proofs.Host.Served
import ServiceVm.Proofs.Host.Termination
import ServiceVm.Proofs.Host.Visits
import ServiceVm.Proofs.Instr.Flow
import ServiceVm.Proofs.Instr.RegisterUse
import ServiceVm.Proofs.Invocation.AccessControl
import ServiceVm.Proofs.Invocation.Conservation
import ServiceVm.Proofs.Invocation.GasUsed
import ServiceVm.Proofs.Invocation.Guests
import ServiceVm.Proofs.Invocation.Rollback
import ServiceVm.Proofs.Invocation.Solvency
import ServiceVm.Proofs.Invocation.Zones
import ServiceVm.Proofs.Machine.Billing
import ServiceVm.Proofs.Machine.Charge
import ServiceVm.Proofs.Machine.MemoryUse
import ServiceVm.Proofs.Machine.Metering
import ServiceVm.Proofs.Machine.Termination
import ServiceVm.Proofs.Memory.Flat
import ServiceVm.Proofs.Pipeline.Progress
import ServiceVm.Proofs.Pipeline.Walk
import ServiceVm.Proofs.Program.Tags
import ServiceVm.Proofs.Service.Balance
import ServiceVm.Proofs.Service.Deposit
import ServiceVm.Proofs.Service.EntrySum
import ServiceVm.Proofs.Service.FreshId
import ServiceVm.Protocol
import ServiceVm.Protocol.Encoding
import ServiceVm.Registers
import ServiceVm.Service.Account
import ServiceVm.Service.Encoding
import ServiceVm.Service.State
import ServiceVm.Word
import ServiceVm.Work.Encoding
import ServiceVm.Work.Package
import ServiceVm.Proofs.Checked
import ServiceVm.Proofs.Program.Grammar
import ServiceVm.Proofs.Program.RoundTrip
import ServiceVm.Proofs.Pipeline.Cycles
import ServiceVm.Proofs.Pipeline.Dataflow
import ServiceVm.Proofs.Pipeline.Hazards
import ServiceVm.Proofs.Result
import ServiceVm.Proofs.Program.Layout
import ServiceVm.Proofs.Service.IdOrder
import ServiceVm.Proofs.Invocation.NewIds
import ServiceVm.Proofs.Invocation.Availability
import ServiceVm.Proofs.Invocation.Queries
import ServiceVm.Proofs.Invocation.Requests
import ServiceVm.Proofs.Invocation.CallingService
import ServiceVm.Proofs.Host.InvokeBlock
import ServiceVm.Proofs.Host.NestedCalls
import ServiceVm.Proofs.Host.Isolation
import ServiceVm.Proofs.Invocation.NestedZones
import ServiceVm.Proofs.Invocation.Exports
import ServiceVm.Proofs.Invocation.Receipts
import ServiceVm.Proofs.Codec.SelfDelimiting
import ServiceVm.Proofs.Work.Encoding
import ServiceVm.Proofs.Program.JumpTable
import ServiceVm.Proofs.Invocation.HeapGrowth
import ServiceVm.Proofs.Instr.Integrity
import ServiceVm.Proofs.Instr.LoadStore
import ServiceVm.Proofs.Instr.Restart
import ServiceVm.Proofs.Codec.Framing
import ServiceVm.Proofs.Host.Slices
import ServiceVm.Proofs.Word.Reading
import ServiceVm.Proofs.Instr.ImmediateForms
import ServiceVm.Proofs.Word.Arithmetic
import ServiceVm.Proofs.Instr.Decoding
import ServiceVm.Proofs.Pipeline.Consistency
import ServiceVm.Proofs.Memory.Ranges

import FilesEvent.ServerStream
import FilesEvent.FrameBound
import FilesEvent.Login
import FilesEvent.Arming
import FilesEvent.Order
import FilesEvent.Lengths
import FilesEvent.SessionManager
import FilesEvent.Saving
import FilesEvent.OwnRequest
import FilesEvent.ClientCalls
import FilesEvent.ConnectionLimit
import FilesEvent.Attributes
import FilesEvent.StartControl
import FilesEvent.Progress
import FilesEvent.ClientStream
import FilesEvent.FileHistory
import FilesEvent.EventDeletes
import FilesEvent.Teardown
import FilesEvent.Extents
import FilesEvent.IOUtils
import FilesEvent.ReactorStation
import FilesEvent.Net.Callbacks
